import AmpTuner.Proofs.Page.Links
import AmpTuner.Page.Tree

/-!
# Walks in document order

The walks of a page run over a stack and are bounded by the size of the store. In a page whose links
agree the bound is never reached, so that a walk is the recursive listing of the nodes below.

* **`preorder`** is that listing: each child followed by its own.
* **`Linked.descendants_eq_preorder`**: the walk over a stack lists the same nodes in the same order.
* **`Linked.mem_descendants_iff`**: what is listed is what is below.
* **`Linked.treeOf_element`** does the same for trees: the tree of an element is the element over the
  trees of its children, at any depth.
-/

namespace AmpTuner.Page

open Markup (Tree Element)

variable {page : Page} {id x : NodeId}

/-- The nodes at most `n` levels below, each in front of those below it. -/
def preorderWithin (page : Page) : Nat → NodeId → List NodeId
  | 0, _ => []
  | n + 1, id => (page.children id).flatMap fun c => c :: page.preorderWithin n c

/-- The nodes below, each in front of those below it. -/
def preorder (page : Page) (id : NodeId) : List NodeId := page.preorderWithin page.nodes.size id

namespace Linked

/-- A bound that reaches below all nodes is as good as any other. -/
theorem preorderWithin_eq (h : page.Linked) {n m : Nat} (hn : page.nodes.size ≤ n + page.depth id)
    (hm : page.nodes.size ≤ m + page.depth id) :
    page.preorderWithin n id = page.preorderWithin m id := by
  -- both bounds fall by one as the depth grows by one; a node that is not there has no children
  by_cases hid : page.Has id
  · have hdepth := h.depth_lt_size hid
    induction n generalizing m id with
    | zero => omega
    | succ n ih =>
      obtain ⟨m, rfl⟩ : ∃ k, m = k + 1 := ⟨m - 1, by omega⟩
      rw [preorderWithin, preorderWithin]
      refine List.flatMap_congr fun c hc => ?_
      have hc' := h.depth_of_parent? ((h.mem_children_iff id c).mp hc)
      have hbelow := h.has_child hc
      rw [ih (m := m) (by omega) (by omega) hbelow (h.depth_lt_size hbelow)]
  · have hchildren := children_of_not_has hid
    cases n <;> cases m <;> simp [preorderWithin, hchildren]

/-- What is below a node: each child, and what is below that. -/
theorem preorder_eq (h : page.Linked) :
    page.preorder id = (page.children id).flatMap fun c => c :: page.preorder c := by
  rw [preorder, ← h.preorderWithin_eq (n := page.nodes.size + 1) (by omega) (by omega),
    preorderWithin]
  rfl

/-- Below a node are exactly the nodes that it is above. -/
theorem mem_preorder_iff (h : page.Linked) : x ∈ page.preorder id ↔ page.Above id x := by
  induction id using h.down_induction with
  | step id ih =>
    rw [h.preorder_eq, List.mem_flatMap]
    constructor
    · rintro ⟨c, hc, hx⟩
      have hparent := (h.mem_children_iff id c).mp hc
      rcases List.mem_cons.mp hx with rfl | hx
      · exact .of_parent? hparent
      · exact .trans (.of_parent? hparent) ((ih c hparent).mp hx)
    · intro hx
      -- the first step down is a child, and the rest of the way lies below it
      obtain ⟨c, hparent, hcx⟩ := Relation.TransGen.head'_iff.mp hx
      refine ⟨c, (h.mem_children_iff id c).mpr hparent, List.mem_cons.mpr ?_⟩
      rcases Relation.reflTransGen_iff_eq_or_transGen.mp hcx with hxc | hcx
      · exact .inl hxc
      · exact .inr ((ih c hparent).mpr hcx)

/-- What is below one child is not below another. -/
theorem eq_of_above_siblings (h : page.Linked) {c c' : NodeId} (hc : page.parent? c = some id)
    (hc' : page.parent? c' = some id) (hx : x = c ∨ page.Above c x)
    (hx' : x = c' ∨ page.Above c' x) : c = c' := by
  -- a sibling above a sibling would be above its own parent
  have apart {a b : NodeId} (ha : page.parent? a = some id) (hb : page.parent? b = some id) :
      ¬ page.Above a b := by
    intro hab
    rcases (above_of_parent? hb).mp hab with rfl | hab
    · exact h.acyclic a (.of_parent? ha)
    · exact h.acyclic a (hab.child ha)
  rcases hx with rfl | hx
  · rcases hx' with rfl | hx'
    · rfl
    · exact absurd hx' (apart hc' hc)
  · rcases hx' with rfl | hx'
    · exact absurd hx (apart hc hc')
    · rcases hx.connected hx' with heq | hab | hba
      · exact heq
      · exact absurd hab (apart hc hc')
      · exact absurd hba (apart hc' hc)

/-- Nothing is below a node twice. -/
theorem nodup_preorder (h : page.Linked) : (page.preorder id).Nodup := by
  induction id using h.down_induction with
  | step id ih =>
    rw [h.preorder_eq, List.nodup_flatMap]
    constructor
    · intro c hc
      have hparent := (h.mem_children_iff id c).mp hc
      exact List.nodup_cons.mpr ⟨fun hmem => h.acyclic c (h.mem_preorder_iff.mp hmem), ih c hparent⟩
    -- the listings of two children have nothing in common
    · refine (h.nodup id).imp_of_mem fun {c c'} hc hc' hne => ?_
      intro x hx hx'
      simp only [List.mem_cons, h.mem_preorder_iff] at hx hx'
      exact hne (h.eq_of_above_siblings ((h.mem_children_iff id c).mp hc)
        ((h.mem_children_iff id c').mp hc') hx hx')

/-- A node is listed in front of what is below it. -/
theorem pair_sublist_preorder (h : page.Linked) (hx : page.Above id x) (hxy : page.Above x y) :
    [x, y].Sublist (page.preorder id) := by
  induction id using h.down_induction with
  | step id ih =>
    rw [h.preorder_eq]
    obtain ⟨c, hc, hup⟩ := List.mem_flatMap.mp (h.preorder_eq ▸ h.mem_preorder_iff.mpr hx)
    obtain ⟨front, back, hsplit⟩ := List.append_of_mem hc
    have hbelow : [x, y].Sublist (c :: page.preorder c) := by
      rcases List.mem_cons.mp hup with rfl | hup
      · exact (List.singleton_sublist.mpr (h.mem_preorder_iff.mpr hxy)).cons_cons x
      · exact (ih c ((h.mem_children_iff id c).mp hc) (h.mem_preorder_iff.mp hup)).cons c
    rw [hsplit, List.flatMap_append, List.flatMap_cons]
    exact (hbelow.trans (List.sublist_append_left _ _)).trans (List.sublist_append_right _ _)

theorem length_preorder_le (h : page.Linked) : (page.preorder id).length ≤ page.nodes.size :=
  length_le_size h.nodup_preorder fun x hx => by
    obtain ⟨p, hp, _⟩ := above_iff.mp (h.mem_preorder_iff.mp hx)
    exact has_of_parent? hp

/-- The stack of a walk stands for the listings of its nodes one behind the other. -/
theorem walk_eq (h : page.Linked) {n : Nat} {stack : List NodeId}
    (hn : (stack.flatMap fun c => c :: page.preorder c).length ≤ n) :
    page.walk n stack = stack.flatMap fun c => c :: page.preorder c := by
  induction n generalizing stack with
  | zero =>
    rw [List.length_eq_zero_iff.mp (Nat.le_zero.mp hn)]
    rfl
  | succ n ih =>
    cases stack with
    | nil => rfl
    | cons c rest =>
      -- the walk puts the children of `c` on the stack, whose listings are that of `c`
      have hunfold : (page.children c ++ rest).flatMap (fun c => c :: page.preorder c)
          = page.preorder c ++ rest.flatMap fun c => c :: page.preorder c := by
        rw [List.flatMap_append, ← h.preorder_eq]
      rw [List.flatMap_cons, List.cons_append, List.length_cons] at hn
      rw [walk, ih (by rw [hunfold]; omega), hunfold, List.flatMap_cons, List.cons_append]

theorem descendants_eq_preorder (h : page.Linked) : page.descendants id = page.preorder id := by
  rw [descendants, h.walk_eq, ← h.preorder_eq]
  rw [← h.preorder_eq]
  exact h.length_preorder_le

theorem mem_descendants_iff (h : page.Linked) : x ∈ page.descendants id ↔ page.Above id x := by
  rw [h.descendants_eq_preorder, h.mem_preorder_iff]

/-- The listing depends on nothing but the nodes below. -/
theorem preorder_congr (h : page.Linked) {page' : Page} (h' : page'.Linked) {S : NodeId → Prop}
    (hdown : ∀ a c, S a → page.parent? c = some a → S c)
    (hchildren : ∀ a, S a → page'.children a = page.children a) (hid : S id) :
    page'.preorder id = page.preorder id := by
  induction id using h.down_induction with
  | step id ih =>
    rw [h.preorder_eq, h'.preorder_eq, hchildren id hid]
    refine List.flatMap_congr fun c hc => ?_
    have hparent := (h.mem_children_iff id c).mp hc
    rw [ih c hparent (hdown id c hid hparent)]

/-! ## Trees -/

/-- A bound that reaches below all nodes cuts nothing off. -/
theorem treeWithin_eq (h : page.Linked) {n m : Nat} (hn : page.nodes.size ≤ n + page.depth id)
    (hm : page.nodes.size ≤ m + page.depth id) : page.treeWithin n id = page.treeWithin m id := by
  by_cases hid : page.Has id
  · have hdepth := h.depth_lt_size hid
    induction n generalizing m id with
    | zero => omega
    | succ n ih =>
      obtain ⟨m, rfl⟩ : ∃ k, m = k + 1 := ⟨m - 1, by omega⟩
      rw [treeWithin, treeWithin]
      split <;> try rfl
      congr 1
      refine List.map_congr_left fun c hc => ?_
      have hc' := h.depth_of_parent? ((h.mem_children_iff id c).mp hc)
      have hbelow := h.has_child hc
      exact ih (by omega) (by omega) hbelow (h.depth_lt_size hbelow)
  · have hkind := (page.kind?_eq_none_iff id).mpr hid
    cases n <;> cases m <;> simp [treeWithin, hkind]

theorem treeOf_eq (h : page.Linked) : page.treeOf id = page.treeWithin (page.nodes.size + 1) id :=
  h.treeWithin_eq (by omega) (by omega)

theorem treeOf_element (h : page.Linked) {el : Element} (hkind : page.kind? id = some (.element el)) :
    page.treeOf id = .element el ((page.children id).map page.treeOf) := by
  rw [h.treeOf_eq, treeWithin, hkind]
  rfl

theorem treeOf_text (h : page.Linked) {content : String}
    (hkind : page.kind? id = some (.text content)) : page.treeOf id = .text content := by
  rw [h.treeOf_eq, treeWithin, hkind]

theorem treeOf_comment (h : page.Linked) {content : String}
    (hkind : page.kind? id = some (.comment content)) : page.treeOf id = .comment content := by
  rw [h.treeOf_eq, treeWithin, hkind]

/-- The tree of a node depends on nothing but the nodes below it: any set of nodes that holds the
children of its members may stand for these. -/
theorem treeOf_congr (h : page.Linked) {page' : Page} (h' : page'.Linked) {S : NodeId → Prop}
    (hdown : ∀ a c, S a → page.parent? c = some a → S c)
    (hkind : ∀ a, S a → page'.kind? a = page.kind? a)
    (hchildren : ∀ a, S a → page'.children a = page.children a) (hid : S id) :
    page'.treeOf id = page.treeOf id := by
  -- downwards, as the trees of the children make up the tree
  induction id using h.down_induction with
  | step id ih =>
    rw [h.treeOf_eq, h'.treeOf_eq, treeWithin, treeWithin, hkind id hid, hchildren id hid]
    split <;> try rfl
    congr 1
    refine List.map_congr_left fun c hc => ?_
    have hparent := (h.mem_children_iff id c).mp hc
    exact ih c hparent (hdown id c hid hparent)

end Linked

end AmpTuner.Page
