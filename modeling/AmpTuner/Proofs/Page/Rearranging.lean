import AmpTuner.Proofs.Page.Operations

/-!
# What a move does

A permitted move changes the children of the two parents and nothing else. Only the agreement of the
links is needed, so that none of this rests on a page without loops.

* **`Moved`** tells everything about a page in which one node was moved, **`HandsOver`** the same for
  all children of a node. Both name what changed, and say of the rest that it did not.
* **`Rearranges`** has a part for each kind of move. A mark counts as long as it is among the children
  besides the moved node; where it is the moved node itself, the node goes to the end.
* `Consistent.moved_attach` is the one proof behind the moves of a single node, and the lemmas on
  `insertBefore` and `insertAfter` tell the place of each.
-/

namespace AmpTuner.Page

variable {page : Page} {p c : NodeId}

/-- The children of `p` without `c`, which may be one of them. -/
def besides (page : Page) (p c : NodeId) : List NodeId := (page.children p).filter (· != c)

/-- In `page'` the node `c` is under `p`, which has the children `listed`, and the nodes `displaced`
have lost their parent. -/
structure Moved (page page' : Page) (c p : NodeId) (listed displaced : List NodeId) : Prop where
  frame : page.SameFrame page'
  kind? : ∀ x, page'.kind? x = page.kind? x
  children_target : page'.children p = listed
  children_former : ∀ q, page.parent? c = some q → q ≠ p → page'.children q = page.besides q c
  children_other : ∀ x, x ≠ p → page.parent? c ≠ some x → page'.children x = page.children x
  parent?_moved : page'.parent? c = some p
  parent?_displaced : ∀ x ∈ displaced, page'.parent? x = none
  parent?_other : ∀ x, x ≠ c → x ∉ displaced → page'.parent? x = page.parent? x

/-- In `page'` the children of `source` are behind those of `target`. -/
structure HandsOver (page page' : Page) (source target : NodeId) : Prop where
  frame : page.SameFrame page'
  kind? : ∀ x, page'.kind? x = page.kind? x
  children_source : page'.children source = []
  children_target : page'.children target = page.children target ++ page.children source
  children_other : ∀ x, x ≠ source → x ≠ target → page'.children x = page.children x
  parent?_moved : ∀ x ∈ page.children source, page'.parent? x = some target
  parent?_other : ∀ x, x ∉ page.children source → page'.parent? x = page.parent? x

/-- What becomes of a page by each permitted move. -/
structure Rearranges (page : Page) : Prop where
  append : ∀ p c, page.Permitted (.appendChild p c) →
    page.Moved (page.appendChild p c) c p (page.besides p c ++ [c]) []
  prepend : ∀ p c, page.Permitted (.prependChild p c) →
    page.Moved (page.prependChild p c) c p (c :: page.besides p c) []
  before : ∀ p c mark, page.Permitted (.insertChildBefore p c (some mark)) → mark ∈ page.besides p c →
    ∃ front back, page.besides p c = front ++ mark :: back ∧
      page.Moved (page.insertChildBefore p c (some mark)) c p (front ++ c :: mark :: back) []
  before_last : ∀ p c mark, page.Permitted (.insertChildBefore p c mark) → (∀ m ∈ mark, m ∉ page.besides p c) →
    page.Moved (page.insertChildBefore p c mark) c p (page.besides p c ++ [c]) []
  after : ∀ p c mark, page.Permitted (.insertChildAfter p c mark) → mark ∈ page.besides p c →
    ∃ front back, page.besides p c = front ++ mark :: back ∧
      page.Moved (page.insertChildAfter p c mark) c p (front ++ mark :: c :: back) []
  after_last : ∀ p c mark, page.Permitted (.insertChildAfter p c mark) → mark ∉ page.besides p c →
    page.Moved (page.insertChildAfter p c mark) c p (page.besides p c ++ [c]) []
  replace : ∀ p old new, page.Permitted (.replace old new) → old ≠ new → page.parent? old = some p →
    ∃ front back, page.besides p new = front ++ old :: back ∧
      page.Moved (page.replace old new) new p (front ++ new :: back) [old]
  moveChildren : ∀ source target, page.Permitted (.moveChildren source target) → source ≠ target →
    page.HandsOver (page.moveChildren source target) source target

theorem Permitted.has_pair {op : Operation} {a b : NodeId} (h : page.Permitted op) (hop : op.handles = [a, b]) :
    page.Has a ∧ page.Has b :=
  ⟨h.has a (by simp [hop]), h.has b (by simp [hop])⟩

namespace Consistent

/-- Other children are all children, if the node is not one of them. -/
theorem besides_of_parent?_ne (h : page.Consistent) (hp : page.parent? c ≠ some p) :
    page.besides p c = page.children p := by
  refine List.filter_eq_self.mpr fun x hx => ?_
  rw [bne_iff_ne]
  rintro rfl
  exact hp ((h.mem_children_iff p x).mp hx)

/-- A child is there once, so that neither side of it has it again. -/
theorem exists_split (h : page.Consistent) {mark : NodeId} (hmark : mark ∈ page.besides p c) :
    ∃ front back, page.besides p c = front ++ mark :: back ∧ mark ∉ front ∧ mark ∉ back := by
  obtain ⟨front, back, hsplit⟩ := List.append_of_mem hmark
  have hnodup : (front ++ mark :: back).Nodup := hsplit ▸ (h.nodup p).filter _
  exact ⟨front, back, hsplit, not_or.mp (mt List.mem_append.mpr (List.nodup_middle.mp hnodup).notMem)⟩

/-- Attaching moves one node, to its place among the other children. -/
theorem moved_attach (h : page.Consistent) (hp : page.Has p) (hc : page.Has c) {place : List NodeId → List NodeId}
    {listed : List NodeId} (hplace : place (page.besides p c) = listed) :
    page.Moved (page.attach p c place) c p listed [] where
  frame := attach_sameFrame
  kind? _ := kind?_attach
  children_target := by rw [h.children_attach hp, if_pos rfl, ← besides, hplace]
  children_former q _ hne := by rw [h.children_attach hp, if_neg hne, besides]
  children_other x hne hx := by rw [h.children_attach hp, if_neg hne, ← besides, h.besides_of_parent?_ne hx]
  parent?_moved := by rw [parent?_attach hc, if_pos rfl]
  parent?_displaced _ hx := absurd hx List.not_mem_nil
  parent?_other x hne _ := parent?_attach_of_ne hne

theorem moved_appendChild (h : page.Consistent) (hp : page.Has p) (hc : page.Has c) :
    page.Moved (page.appendChild p c) c p (page.besides p c ++ [c]) [] :=
  h.moved_attach hp hc rfl

/-- Replacing moves one node to the place of another. -/
theorem moved_replace (h : page.Consistent) {old new : NodeId} {front back : List NodeId} (hnew : page.Has new)
    (hne : old ≠ new) (hold : page.parent? old = some p) (hsplit : page.besides p new = front ++ old :: back)
    (hfront : old ∉ front) (hback : old ∉ back) :
    page.Moved (page.replace old new) new p (front ++ new :: back) [old] := by
  have hchildren (x : NodeId) : (page.replace old new).children x
      = (page.besides x new).map fun y => if y = old then new else y :=
    h.children_replace hold hnew hne.symm
  have hkeep {L : List NodeId} (hL : old ∉ L) : (L.map fun y => if y = old then new else y) = L :=
    (List.map_congr_left fun y hy => if_neg (ne_of_mem_of_not_mem hy hL)).trans (List.map_id _)
  -- the old one is a child of `p` alone
  have hother {x : NodeId} (hx : x ≠ p) : old ∉ page.besides x new := fun hmem =>
    hx (Option.some.inj (((h.mem_children_iff x old).mp (List.mem_filter.mp hmem).1).symm.trans hold))
  exact {
    frame := replace_sameFrame
    kind? := fun _ => kind?_replace
    children_target := by
      rw [hchildren, hsplit, List.map_append, List.map_cons, if_pos rfl, hkeep hfront, hkeep hback]
    children_former := fun q _ hq => by rw [hchildren, hkeep (hother hq)]
    children_other := fun x hx hnewx => by rw [hchildren, hkeep (hother hx), h.besides_of_parent?_ne hnewx]
    parent?_moved := by rw [parent?_replace hold hnew, if_neg hne.symm, if_pos rfl]
    parent?_displaced := fun x hx => by rw [parent?_replace hold hnew, if_pos (List.mem_singleton.mp hx)]
    parent?_other := fun x hx hxold => by
      rw [parent?_replace hold hnew, if_neg (mt List.mem_singleton.mpr hxold), if_neg hx] }

/-- Moving children hands all of them over. -/
theorem handsOver_moveChildren (h : page.Consistent) {source target : NodeId} (htarget : page.Has target)
    (hne : source ≠ target) : page.HandsOver (page.moveChildren source target) source target where
  frame := moveChildren_sameFrame
  kind? _ := kind?_moveChildren
  children_source := by rw [children_moveChildren htarget hne, if_pos rfl]
  children_target := by rw [children_moveChildren htarget hne, if_neg hne.symm, if_pos rfl]
  children_other x hs ht := by rw [children_moveChildren htarget hne, if_neg hs, if_neg ht]
  parent?_moved x hx := by rw [h.parent?_moveChildren, if_pos ((h.mem_children_iff source x).mp hx)]
  parent?_other x hx := by rw [h.parent?_moveChildren, if_neg (mt (h.mem_children_iff source x).mpr hx)]

/-- Each move puts its nodes where it says, and all else stays as it was. -/
theorem rearranges (h : page.Consistent) : page.Rearranges where
  append p c hop := by
    obtain ⟨hp, hc⟩ := hop.has_pair rfl
    exact h.moved_appendChild hp hc
  prepend p c hop := by
    obtain ⟨hp, hc⟩ := hop.has_pair rfl
    exact h.moved_attach hp hc rfl
  before p c mark hop hmark := by
    obtain ⟨hp, hc⟩ := hop.has_pair rfl
    obtain ⟨front, back, hsplit, hfront, -⟩ := h.exists_split hmark
    refine ⟨front, back, hsplit, h.moved_attach hp hc ?_⟩
    rw [hsplit, insertBefore_append_cons hfront]
  before_last p c mark hop hmark := by
    obtain ⟨hp, hc⟩ := hop.has_pair rfl
    cases mark with
    | none => exact h.moved_appendChild hp hc
    | some mark => exact h.moved_attach hp hc (insertBefore_of_not_mem (hmark mark rfl))
  after p c mark hop hmark := by
    obtain ⟨hp, hc⟩ := hop.has_pair rfl
    obtain ⟨front, back, hsplit, hfront, -⟩ := h.exists_split hmark
    refine ⟨front, back, hsplit, h.moved_attach hp hc ?_⟩
    rw [hsplit, insertAfter_append_cons hfront]
  after_last p c mark hop hmark := by
    obtain ⟨hp, hc⟩ := hop.has_pair rfl
    exact h.moved_attach hp hc (insertAfter_of_not_mem hmark)
  replace p old new hop hne hold := by
    obtain ⟨-, hnew⟩ := hop.has_pair rfl
    have hmem : old ∈ page.besides p new :=
      List.mem_filter.mpr ⟨(h.mem_children_iff p old).mpr hold, bne_iff_ne.mpr hne⟩
    obtain ⟨front, back, hsplit, hfront, hback⟩ := h.exists_split hmem
    exact ⟨front, back, hsplit, h.moved_replace hnew hne hold hsplit hfront hback⟩
  moveChildren source target hop hne := by
    obtain ⟨-, htarget⟩ := hop.has_pair rfl
    exact h.handsOver_moveChildren htarget hne

end Consistent

/-- Moves among three children: to the end, to the front, to either side of a mark, with the node as its
own mark or a mark that is no child, to the place of another child, and all of them up to the parent. -/
theorem rearranges_loaded :
    let page := ofDocument
      { nodes := [.element { tag := "ul" } [.element { tag := "li" } [], .text "a", .comment "b"]] }
    let moves : List Operation :=
      [.appendChild ⟨3⟩ ⟨4⟩, .prependChild ⟨3⟩ ⟨6⟩, .insertChildBefore ⟨3⟩ ⟨4⟩ (some ⟨6⟩),
        .insertChildBefore ⟨3⟩ ⟨4⟩ (some ⟨4⟩), .insertChildAfter ⟨3⟩ ⟨4⟩ ⟨5⟩, .insertChildAfter ⟨3⟩ ⟨4⟩ ⟨1⟩,
        .replace ⟨5⟩ ⟨4⟩, .moveChildren ⟨3⟩ ⟨2⟩]
    (∀ move ∈ moves, page.Permitted move) ∧ page.Rearranges ∧
      page.Moved (page.insertChildBefore ⟨3⟩ ⟨4⟩ (some ⟨4⟩)) ⟨4⟩ ⟨3⟩ [⟨5⟩, ⟨6⟩, ⟨4⟩] [] := by
  intro page moves
  have h : page.Linked := (ofDocument_wellFormed _).linked
  have hmoves : ∀ move ∈ moves, page.permits move = true := by decide +kernel
  have hpermitted : ∀ move ∈ moves, page.Permitted move := fun move hmove =>
    h.permits_iff.mp (hmoves move hmove)
  have hrearranges : page.Rearranges := h.consistent.rearranges
  refine ⟨hpermitted, hrearranges, ?_⟩
  have hself := hrearranges.before_last ⟨3⟩ ⟨4⟩ (some ⟨4⟩) (hpermitted _ (by simp [moves])) (by decide +kernel)
  rwa [show page.besides ⟨3⟩ ⟨4⟩ ++ [⟨4⟩] = [⟨5⟩, ⟨6⟩, ⟨4⟩] by decide +kernel] at hself

end AmpTuner.Page
