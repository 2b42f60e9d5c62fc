import AmpTuner.Proofs.Page.Views
import Mathlib.Logic.Relation
import Mathlib.Data.List.Nodup
import Mathlib.Data.List.Perm.Subperm

/-!
# Links that agree

Parent and child links are stored twice. `Linked` says that they agree: a node is in a list of
children exactly when that list belongs to its parent, no list holds a node twice, and no node is
above itself. Every move keeps this, unless it would put a node under itself.

## The architecture

* **`Consistent`** is the agreement of the links alone, which a loop of parents would not disturb.
* **`Above`** is the relation of a node to what is below it, the transitive closure of the parent
  link.
* **`ancestors_of_parent?`** and **`mem_ancestors_iff`** free the bounded climb of its bound: in a
  page whose links agree it meets every node above exactly once.
* **`depth`** turns both into a measure, so that later proofs go up or down a page by
  `Linked.up_induction` and `Linked.down_induction`, and never count steps.
-/

namespace AmpTuner.Page

variable {page page' : Page}

/-- `a` is the parent of `d`, or its parent, and so on. -/
def Above (page : Page) (a d : NodeId) : Prop :=
  Relation.TransGen (fun a d => page.parent? d = some a) a d

/-- Both links of every node agree, and no node is listed twice. -/
structure Consistent (page : Page) : Prop where
  mem_children_iff : ∀ p c, c ∈ page.children p ↔ page.parent? c = some p
  nodup : ∀ p, (page.children p).Nodup

/-- Both links of every node agree, and following parents ends. -/
structure Linked (page : Page) : Prop where
  mem_children_iff : ∀ p c, c ∈ page.children p ↔ page.parent? c = some p
  nodup : ∀ p, (page.children p).Nodup
  acyclic : ∀ id, ¬ page.Above id id

theorem Linked.consistent (h : page.Linked) : page.Consistent := ⟨h.mem_children_iff, h.nodup⟩

theorem Consistent.has_parent (h : page.Consistent) {p c : NodeId} (hp : page.parent? c = some p) : page.Has p :=
  has_of_mem_children ((h.mem_children_iff p c).mpr hp)

theorem Consistent.has_child (h : page.Consistent) {p c : NodeId} (hc : c ∈ page.children p) : page.Has c :=
  has_of_parent? ((h.mem_children_iff p c).mp hc)

/-! ## Being above -/

theorem Above.of_parent? {a d : NodeId} (h : page.parent? d = some a) : page.Above a d :=
  .single h

theorem Above.child {a b d : NodeId} (h : page.Above a b) (hd : page.parent? d = some b) :
    page.Above a d :=
  .tail h hd

theorem Above.trans {a b d : NodeId} (h : page.Above a b) (h' : page.Above b d) : page.Above a d :=
  Relation.TransGen.trans h h'

/-- What is above a node is its parent, or above that. -/
theorem above_iff {a d : NodeId} :
    page.Above a d ↔ ∃ p, page.parent? d = some p ∧ (a = p ∨ page.Above a p) := by
  constructor
  · intro h
    cases h with
    | single h => exact ⟨a, h, .inl rfl⟩
    | tail hab hbd => exact ⟨_, hbd, .inr hab⟩
  · rintro ⟨p, hp, rfl | hap⟩
    · exact .of_parent? hp
    · exact hap.child hp

theorem above_of_parent? {a d p : NodeId} (hp : page.parent? d = some p) :
    page.Above a d ↔ a = p ∨ page.Above a p := by
  rw [above_iff, hp]
  simp

theorem exists_child_of_above {a d : NodeId} (h : page.Above a d) : ∃ c, page.parent? c = some a := by
  induction h with
  | single hd => exact ⟨_, hd⟩
  | tail _ _ ih => exact ih

theorem not_above_of_parent?_eq_none {a d : NodeId} (h : page.parent? d = none) :
    ¬ page.Above a d := by
  rw [above_iff, h]
  simp

/-- Fewer parent links put fewer nodes above. -/
theorem Above.mono (h : ∀ d p, page'.parent? d = some p → page.parent? d = some p) {a d : NodeId}
    (had : page'.Above a d) : page.Above a d :=
  Relation.TransGen.mono (fun p d hp => h d p hp) _ _ had

/-- Two nodes above the same node are related. -/
theorem Above.connected {a b d : NodeId} (ha : page.Above a d) (hb : page.Above b d) :
    a = b ∨ page.Above a b ∨ page.Above b a := by
  -- a node has one parent, so both ways up begin with the same step
  induction ha with
  | single hd =>
    rcases (above_of_parent? hd).mp hb with rfl | hb
    · exact .inl rfl
    · exact .inr (.inr hb)
  | tail hac hd ih =>
    rcases (above_of_parent? hd).mp hb with rfl | hb
    · exact .inr (.inl hac)
    · exact ih hb

namespace SameLinks

theorem above_iff (h : page.SameLinks page') {a d : NodeId} : page'.Above a d ↔ page.Above a d :=
  ⟨Above.mono fun d p hp => by rw [← h.parent?, hp], Above.mono fun d p hp => by rw [h.parent?, hp]⟩

theorem linked (h : page.SameLinks page') (hlinked : page.Linked) : page'.Linked where
  mem_children_iff p c := by rw [h.children, h.parent?]; exact hlinked.mem_children_iff p c
  nodup p := by rw [h.children]; exact hlinked.nodup p
  acyclic id := by rw [h.above_iff]; exact hlinked.acyclic id

end SameLinks

namespace Linked

variable {id p c : NodeId}

theorem has_parent (h : page.Linked) (hp : page.parent? c = some p) : page.Has p := h.consistent.has_parent hp

theorem has_of_above (h : page.Linked) {a d : NodeId} (had : page.Above a d) : page.Has a := by
  induction had with
  | single hd => exact h.has_parent hd
  | tail _ _ ih => exact ih

theorem has_child (h : page.Linked) (hc : c ∈ page.children p) : page.Has c := h.consistent.has_child hc

theorem mem_elementChildren_iff (h : page.Linked) :
    c ∈ page.elementChildren p ↔ page.parent? c = some p ∧ ∃ el, page.element? c = some el := by
  rw [elementChildren, List.mem_filter, h.mem_children_iff, Option.isSome_iff_exists]

/-! ## The climb is complete -/

theorem climb_succ_of_parent? {n : Nat} {d p : NodeId} (hp : page.parent? d = some p) :
    page.climb (n + 1) d = p :: page.climb n p := by
  rw [climb, hp]

/-- A climb ends where there is no parent. -/
theorem climb_of_parent?_eq_none {n : Nat} {d : NodeId} (hd : page.parent? d = none) :
    page.climb n d = [] := by
  cases n with
  | zero => rfl
  | succ n => rw [climb, hd]

/-- A climb comes only to what is above. By induction on the steps. -/
theorem above_of_mem_climb (n : Nat) {a d : NodeId} (h : a ∈ page.climb n d) : page.Above a d := by
  induction n generalizing d with
  | zero => simp [climb] at h
  | succ n ih =>
    rw [climb] at h
    split at h
    · simp at h
    · next p hp =>
      rcases List.mem_cons.mp h with rfl | h
      · exact .of_parent? hp
      · exact (ih h).child hp

/-- A climb comes to no node twice, or else something would be above itself. -/
theorem nodup_climb (h : page.Linked) (n : Nat) (d : NodeId) : (page.climb n d).Nodup := by
  induction n generalizing d with
  | zero => simp [climb]
  | succ n ih =>
    -- a node met twice would be above itself
    rw [climb]
    split
    · exact List.nodup_nil
    · next p hp =>
      exact List.nodup_cons.mpr ⟨fun hmem => h.acyclic p (above_of_mem_climb n hmem), ih p⟩

/-- Distinct nodes of a store are at most as many as the store has. -/
theorem length_le_size {ids : List NodeId} (hnodup : ids.Nodup) (hhas : ∀ x ∈ ids, page.Has x) :
    ids.length ≤ page.nodes.size := by
  have hinj : (ids.map (·.index)).Nodup :=
    hnodup.map fun x y hxy => (NodeId.eq_iff_index x y).mpr hxy
  have hsub : ids.map (·.index) ⊆ List.range page.nodes.size := by
    intro n hn
    obtain ⟨x, hx, rfl⟩ := List.mem_map.mp hn
    exact List.mem_range.mpr (hhas x hx)
  simpa using (List.subperm_of_subset hinj hsub).length_le

/-- A climb has fewer steps than the page has nodes. -/
theorem length_climb_lt (h : page.Linked) (n : Nat) {d : NodeId} (hd : page.Has d) :
    (page.climb n d).length < page.nodes.size := by
  -- `d` itself is not met, so it counts as one more
  have hnodup : (d :: page.climb n d).Nodup :=
    List.nodup_cons.mpr
      ⟨fun hmem => h.acyclic d (above_of_mem_climb n hmem), h.nodup_climb n d⟩
  have hhas : ∀ x ∈ d :: page.climb n d, page.Has x := by
    intro x hx
    rcases List.mem_cons.mp hx with rfl | hx
    · exact hd
    · exact h.has_of_above (above_of_mem_climb n hx)
  exact length_le_size hnodup hhas

/-- A climb that stops before its bound is not cut. -/
theorem climb_succ_of_length_lt (n : Nat) {d : NodeId} (hn : (page.climb n d).length < n) :
    page.climb (n + 1) d = page.climb n d := by
  induction n generalizing d with
  | zero => simp at hn
  | succ n ih =>
    cases hp : page.parent? d with
    | none => rw [climb_of_parent?_eq_none hp, climb_of_parent?_eq_none hp]
    | some p =>
      rw [climb_succ_of_parent? hp, List.length_cons] at hn
      rw [climb_succ_of_parent? hp, climb_succ_of_parent? hp, ih (by omega)]

/-- The ancestors of a node are its parent and those of the parent. -/
theorem ancestors_of_parent? (h : page.Linked) {d p : NodeId} (hp : page.parent? d = some p) :
    page.ancestors d = p :: page.ancestors p := by
  -- the bound is not reached, so the climb may go one step further before the first is taken off
  rw [ancestors, ← climb_succ_of_length_lt _ (h.length_climb_lt _ (has_of_parent? hp)),
    climb_succ_of_parent? hp, ancestors]

/-- The ancestors are all the nodes above. -/
theorem mem_ancestors_iff (h : page.Linked) {a d : NodeId} :
    a ∈ page.ancestors d ↔ page.Above a d := by
  constructor
  · exact above_of_mem_climb _
  · intro had
    induction had with
    | single hd => rw [h.ancestors_of_parent? hd]; exact List.mem_cons_self
    | tail _ hd ih => rw [h.ancestors_of_parent? hd]; exact List.mem_cons_of_mem _ ih

theorem hasAncestor_iff (h : page.Linked) {d : NodeId} {tag : String} :
    page.hasAncestor d tag = true ↔ ∃ a, page.Above a d ∧ page.isTag a tag = true := by
  simp [hasAncestor, List.any_eq_true, h.mem_ancestors_iff]

end Linked

/-! ## Depth -/

/-- How many nodes are above. -/
def depth (page : Page) (id : NodeId) : Nat := (page.ancestors id).length

namespace Linked

theorem depth_of_parent? (h : page.Linked) {d p : NodeId} (hp : page.parent? d = some p) :
    page.depth d = page.depth p + 1 := by
  rw [depth, h.ancestors_of_parent? hp, List.length_cons, depth]

theorem depth_lt_size (h : page.Linked) {d : NodeId} (hd : page.Has d) :
    page.depth d < page.nodes.size :=
  h.length_climb_lt _ hd

/-- What passes from the parent to a node holds everywhere. -/
theorem up_induction (h : page.Linked) {motive : NodeId → Prop}
    (step : ∀ d, (∀ p, page.parent? d = some p → motive p) → motive d) (d : NodeId) : motive d := by
  induction hn : page.depth d using Nat.strongRecOn generalizing d with
  | ind n ih =>
    -- the depth falls with each step up
    refine step d fun p hp => ih (page.depth p) ?_ p rfl
    have := h.depth_of_parent? hp
    omega

/-- Where the parents are the same on the whole way up, so is all that is above. -/
theorem above_congr (h : page.Linked) {S : NodeId → Prop} (hup : ∀ x p, S x → page.parent? x = some p → S p)
    (hparent : ∀ x, S x → page'.parent? x = page.parent? x) {a x : NodeId} (hx : S x) :
    page'.Above a x ↔ page.Above a x := by
  induction x using h.up_induction with
  | step x ih =>
    cases hp : page.parent? x with
    | none =>
      exact iff_of_false (not_above_of_parent?_eq_none ((hparent x hx).trans hp))
        (not_above_of_parent?_eq_none hp)
    | some p =>
      rw [above_of_parent? ((hparent x hx).trans hp), above_of_parent? hp, ih p hp (hup x p hx hp)]

/-- What passes from the children to a node holds everywhere. -/
theorem down_induction (h : page.Linked) {motive : NodeId → Prop}
    (step : ∀ a, (∀ c, page.parent? c = some a → motive c) → motive a) (a : NodeId) : motive a := by
  induction hn : page.nodes.size - page.depth a using Nat.strongRecOn generalizing a with
  | ind n ih =>
    -- what the depth leaves to the size of the store falls with each step down
    refine step a fun c hc => ih (page.nodes.size - page.depth c) ?_ c rfl
    have := h.depth_of_parent? hc
    have := h.depth_lt_size (has_of_parent? hc)
    omega

end Linked

end AmpTuner.Page
