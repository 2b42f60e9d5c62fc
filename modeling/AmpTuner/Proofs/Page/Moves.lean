import AmpTuner.Proofs.Page.Links

/-!
# Moves

What the views show after each move of a page whose links agree, and that the links agree again.
A node may go anywhere but under itself or under what is below it.

* **`Linked.attach`** is the one place where that condition is used: the new link could close a loop
  only through itself (`above_attach`).
* `detachAll`, `replace`, `moveChildren` and `setTextContent` are made of attachments and
  detachments. Each is summed up in one step, so that later proofs see no page in between.
-/

namespace AmpTuner

/-! ## Places among the children -/

/-- Puts `new` somewhere among the others, which keep their order. -/
def IsPlacement (new : NodeId) (place : List NodeId → List NodeId) : Prop :=
  ∀ L, ∃ before after, L = before ++ after ∧ place L = before ++ new :: after

/-- Placing adds the new node and loses none. -/
theorem IsPlacement.perm {new : NodeId} {place : List NodeId → List NodeId} (h : IsPlacement new place)
    (L : List NodeId) : (place L).Perm (new :: L) := by
  obtain ⟨before, after, rfl, heq⟩ := h L
  rw [heq]
  exact List.perm_middle

/-- A test that `new` fails does not see it. -/
theorem IsPlacement.filter_eq {new : NodeId} {place : List NodeId → List NodeId}
    (h : IsPlacement new place) {p : NodeId → Bool} (hp : p new = false) (L : List NodeId) :
    (place L).filter p = L.filter p := by
  obtain ⟨before, after, rfl, heq⟩ := h L
  rw [heq, List.filter_append, List.filter_append, List.filter_cons_of_neg (by simp [hp])]

theorem isPlacement_cons (new : NodeId) : IsPlacement new (new :: ·) := fun L => ⟨[], L, rfl, rfl⟩

theorem isPlacement_append (new : NodeId) : IsPlacement new (· ++ [new]) :=
  fun L => ⟨L, [], by simp, rfl⟩

/-- A placement goes on behind a first child that keeps its place. -/
theorem exists_split_cons {new x : NodeId} {L placed : List NodeId}
    (h : ∃ before after, L = before ++ after ∧ placed = before ++ new :: after) :
    ∃ before after, x :: L = before ++ after ∧ x :: placed = before ++ new :: after := by
  obtain ⟨before, after, rfl, rfl⟩ := h
  exact ⟨x :: before, after, rfl, rfl⟩

/-- In front of a mark is a place, be the mark there or not. -/
theorem isPlacement_insertBefore (new mark : NodeId) : IsPlacement new (insertBefore new mark) := by
  intro L
  induction L with
  | nil => exact ⟨[], [], rfl, rfl⟩
  | cons x rest ih =>
    rw [insertBefore]
    split
    · exact ⟨[], x :: rest, rfl, rfl⟩
    · exact exists_split_cons ih

/-- Behind a mark is a place, be the mark there or not. -/
theorem isPlacement_insertAfter (new mark : NodeId) : IsPlacement new (insertAfter new mark) := by
  intro L
  induction L with
  | nil => exact ⟨[], [], rfl, rfl⟩
  | cons x rest ih =>
    rw [insertAfter]
    split
    · exact ⟨[x], rest, rfl, rfl⟩
    · exact exists_split_cons ih

/-- In front of a mark that stands behind `front` only. -/
theorem insertBefore_append_cons {new mark : NodeId} {front back : List NodeId} (hfront : mark ∉ front) :
    insertBefore new mark (front ++ mark :: back) = front ++ new :: mark :: back := by
  induction front with
  | nil => exact if_pos rfl
  | cons x front ih =>
    obtain ⟨hx, hfront⟩ := not_or.mp (mt List.mem_cons.mpr hfront)
    rw [List.cons_append, insertBefore, if_neg (Ne.symm hx), ih hfront, List.cons_append]

/-- If the mark is missing, the node comes last. -/
theorem insertBefore_of_not_mem {new mark : NodeId} {L : List NodeId} (hmark : mark ∉ L) :
    insertBefore new mark L = L ++ [new] := by
  induction L with
  | nil => rfl
  | cons x rest ih =>
    obtain ⟨hx, hrest⟩ := not_or.mp (mt List.mem_cons.mpr hmark)
    rw [insertBefore, if_neg (Ne.symm hx), ih hrest, List.cons_append]

/-- Right behind a mark that stands behind `front` only. -/
theorem insertAfter_append_cons {new mark : NodeId} {front back : List NodeId} (hfront : mark ∉ front) :
    insertAfter new mark (front ++ mark :: back) = front ++ mark :: new :: back := by
  induction front with
  | nil => exact if_pos rfl
  | cons x front ih =>
    obtain ⟨hx, hfront⟩ := not_or.mp (mt List.mem_cons.mpr hfront)
    rw [List.cons_append, insertAfter, if_neg (Ne.symm hx), ih hfront, List.cons_append]

/-- If the mark is missing, the node comes last here, too. -/
theorem insertAfter_of_not_mem {new mark : NodeId} {L : List NodeId} (hmark : mark ∉ L) :
    insertAfter new mark L = L ++ [new] := by
  induction L with
  | nil => rfl
  | cons x rest ih =>
    obtain ⟨hx, hrest⟩ := not_or.mp (mt List.mem_cons.mpr hmark)
    rw [insertAfter, if_neg (Ne.symm hx), ih hrest, List.cons_append]

/-- A node in front of the mark stands, once the mark is taken out, where the mark was. -/
theorem filter_insertBefore {new mark : NodeId} {L : List NodeId} (hnodup : L.Nodup)
    (hmark : mark ∈ L) (hnew : new ≠ mark) :
    (insertBefore new mark L).filter (· != mark) = L.map fun x => if x = mark then new else x := by
  -- behind the mark nothing equals it, as no node is there twice
  induction L with
  | nil => simp at hmark
  | cons x rest ih =>
    obtain ⟨hx, hnodup⟩ := List.nodup_cons.mp hnodup
    rw [insertBefore]
    by_cases hxm : x = mark
    · subst hxm
      have hrest : ∀ y ∈ rest, y ≠ x := fun y hy hyx => hx (hyx ▸ hy)
      have hmap : (rest.map fun y => if y = x then new else y) = rest :=
        (List.map_congr_left fun y hy => if_neg (hrest y hy)).trans (List.map_id _)
      have hfilter : rest.filter (· != x) = rest :=
        List.filter_eq_self.mpr fun y hy => by simpa using hrest y hy
      simp [hnew, hmap, hfilter]
    · have hmem : mark ∈ rest := (List.mem_cons.mp hmark).resolve_left fun h => hxm h.symm
      simp [hxm, ih hnodup hmem]

namespace Page

variable {page : Page} {id x : NodeId}

/-! ## Detaching -/

/-- A detached node is gone from the children of all. -/
theorem Consistent.children_detach (h : page.Consistent) :
    (page.detach id).children x = (page.children x).filter (· != id) := by
  rw [Page.children_detach]
  split
  · rfl
  · next hne =>
    -- no other node had it as a child
    refine (List.filter_eq_self.mpr fun c hc => ?_).symm
    rw [bne_iff_ne]
    rintro rfl
    exact hne ((h.mem_children_iff x c).mp hc)

/-- Detaching keeps a page consistent. -/
theorem Consistent.detach (h : page.Consistent) : (page.detach id).Consistent where
  mem_children_iff p c := by
    rw [h.children_detach, parent?_detach, List.mem_filter, h.mem_children_iff, bne_iff_ne]
    split
    · next hc => simp [hc]
    · next hc => simp [hc]
  nodup p := by
    rw [h.children_detach]
    exact (h.nodup p).filter _

theorem Linked.children_detach (h : page.Linked) :
    (page.detach id).children x = (page.children x).filter (· != id) :=
  h.consistent.children_detach

/-- Detaching puts nothing above anything. -/
theorem above_of_above_detach {a d : NodeId} (h : (page.detach id).Above a d) : page.Above a d := by
  refine Above.mono (fun d p hp => ?_) h
  rw [parent?_detach] at hp
  split at hp
  · cases hp
  · exact hp

theorem Linked.detach (h : page.Linked) : (page.detach id).Linked where
  mem_children_iff := h.consistent.detach.mem_children_iff
  nodup := h.consistent.detach.nodup
  acyclic x hx := h.acyclic x (above_of_above_detach hx)

section DetachAll

variable (ids : List NodeId)

theorem detachAll_cons (id : NodeId) : page.detachAll (id :: ids) = (page.detach id).detachAll ids :=
  rfl

theorem detachAll_sameFrame : page.SameFrame (page.detachAll ids) := by
  induction ids generalizing page with
  | nil => exact .refl _
  | cons id ids ih => exact detach_sameFrame.trans ih

theorem has_detachAll : (page.detachAll ids).Has x ↔ page.Has x := by
  induction ids generalizing page with
  | nil => rfl
  | cons id ids ih => rw [detachAll_cons, ih, has_detach]

theorem kind?_detachAll : (page.detachAll ids).kind? x = page.kind? x := by
  induction ids generalizing page with
  | nil => rfl
  | cons id ids ih => rw [detachAll_cons, ih, kind?_detach]

theorem detachAll_sameKinds : page.SameKinds (page.detachAll ids) := ⟨fun _ _ => kind?_detachAll ids⟩

/-- Exactly the detached nodes lose their parents. -/
theorem parent?_detachAll :
    (page.detachAll ids).parent? x = if x ∈ ids then none else page.parent? x := by
  induction ids generalizing page with
  | nil => rfl
  | cons id ids ih =>
    rw [detachAll_cons, ih, parent?_detach]
    by_cases hx : x = id <;> simp [hx]

variable {ids} in
/-- A parent that is left was a parent before. -/
theorem parent?_of_detachAll {p : NodeId} (h : (page.detachAll ids).parent? x = some p) : page.parent? x = some p := by
  rw [parent?_detachAll] at h
  split at h
  · cases h
  · exact h

/-- What stands neither at nor below a detached node has the same nodes above it. -/
theorem above_detachAll {a e : NodeId} (h : page.Above a e) (hout : ∀ n ∈ ids, n ≠ e ∧ ¬ page.Above n e) :
    (page.detachAll ids).Above a e := by
  -- from the node up, no link that is followed belongs to one of the nodes
  have kept {p d : NodeId} (hp : page.parent? d = some p) (hd : d ∉ ids) :
      (page.detachAll ids).parent? d = some p := by
    rw [parent?_detachAll, if_neg hd, hp]
  induction h with
  | single hp => exact .of_parent? (kept hp fun hmem => (hout _ hmem).1 rfl)
  | @tail p d _ hp ih =>
    refine (ih fun n hn => ⟨?_, fun habove => ?_⟩).child (kept hp fun hmem => (hout _ hmem).1 rfl)
    · rintro rfl
      exact (hout n hn).2 (.of_parent? hp)
    · exact (hout n hn).2 (habove.child hp)

theorem Linked.detachAll (h : page.Linked) : (page.detachAll ids).Linked := by
  induction ids generalizing page with
  | nil => exact h
  | cons id ids ih => exact ih h.detach

/-- The detached nodes are gone from the children of all. -/
theorem Linked.children_detachAll (h : page.Linked) :
    (page.detachAll ids).children x = (page.children x).filter (· ∉ ids) := by
  induction ids generalizing page with
  | nil => simp [Page.detachAll]
  | cons id ids ih =>
    rw [detachAll_cons, ih h.detach, h.children_detach, List.filter_filter]
    refine List.filter_congr fun c _ => ?_
    by_cases hc : c = id <;> simp [hc]

/-- A node that all children were taken from has none, and no other node lost one. -/
theorem Linked.children_detachAll_children (h : page.Linked) :
    (page.detachAll (page.children id)).children x = if x = id then [] else page.children x := by
  rw [h.children_detachAll]
  split
  · next hx => simp [hx]
  · next hx =>
    refine List.filter_eq_self.mpr fun c hc => ?_
    rw [h.mem_children_iff] at hc
    simpa [h.mem_children_iff, hc] using hx

end DetachAll

/-! ## Attaching -/

section Attach

variable {parent child : NodeId} {place : List NodeId → List NodeId}

/-- A new link puts nodes above others only through itself. -/
theorem above_attach (hchild : page.Has child) {a d : NodeId}
    (h : (page.attach parent child place).Above a d) :
    page.Above a d
      ∨ (a = parent ∨ page.Above a parent) ∧ (d = child ∨ page.Above child d) := by
  induction h with
  | single hd =>
    rw [parent?_attach hchild] at hd
    split at hd
    · next hdc => exact .inr ⟨.inl (Option.some.inj hd).symm, .inl hdc⟩
    · exact .inl (.of_parent? hd)
  | tail _ hd ih =>
    rw [parent?_attach hchild] at hd
    split at hd
    · next hdc =>
      -- the step goes over the new link, so the path so far ends at the new parent
      obtain rfl := Option.some.inj hd
      rcases ih with ih | ⟨ih, _⟩
      · exact .inr ⟨.inr ih, .inl hdc⟩
      · exact .inr ⟨ih, .inl hdc⟩
    · rcases ih with ih | ⟨ha, rfl | hb⟩
      · exact .inl (ih.child hd)
      · exact .inr ⟨ha, .inr (.of_parent? hd)⟩
      · exact .inr ⟨ha, .inr (hb.child hd)⟩

/-- An attached node leaves the children among which it was, and comes to its place among those of its parent. -/
theorem Consistent.children_attach (h : page.Consistent) (hparent : page.Has parent) :
    (page.attach parent child place).children x
      = if x = parent then place ((page.children x).filter (· != child))
        else (page.children x).filter (· != child) := by
  rw [Page.children_attach hparent, h.children_detach]

/-- Attaching keeps a page consistent, even where it makes a loop. -/
theorem Consistent.attach (h : page.Consistent) (hparent : page.Has parent) (hchild : page.Has child)
    (hplace : IsPlacement child place) : (page.attach parent child place).Consistent where
  mem_children_iff p c := by
    rw [h.children_attach hparent, parent?_attach hchild]
    -- both views change for the child, and for no other node
    have hmem : c ∈ (page.children p).filter (· != child)
        ↔ page.parent? c = some p ∧ c ≠ child := by
      rw [List.mem_filter, h.mem_children_iff, bne_iff_ne]
    by_cases hc : c = child
    · by_cases hp : p = parent
      · simp [hc, hp, (hplace.perm _).mem_iff]
      · simp [hc, hp, Ne.symm hp]
    · by_cases hp : p = parent
      · rw [if_pos hp, if_neg hc, (hplace.perm _).mem_iff, List.mem_cons, hmem]
        simp [hc]
      · rw [if_neg hp, if_neg hc, hmem]
        simp [hc]
  nodup p := by
    rw [h.children_attach hparent]
    have hnodup : ((page.children p).filter (· != child)).Nodup := (h.nodup p).filter _
    split
    · rw [(hplace.perm _).nodup_iff, List.nodup_cons]
      exact ⟨by simp, hnodup⟩
    · exact hnodup

/-- The same on linked pages. -/
theorem Linked.children_attach (h : page.Linked) (hparent : page.Has parent) :
    (page.attach parent child place).children x
      = if x = parent then place ((page.children x).filter (· != child))
        else (page.children x).filter (· != child) :=
  h.consistent.children_attach hparent

/-- Attaching keeps a page linked, unless the node comes to stand below itself. -/
theorem Linked.attach (h : page.Linked) (hparent : page.Has parent) (hchild : page.Has child)
    (hplace : IsPlacement child place) (hne : child ≠ parent) (hloop : ¬ page.Above child parent) :
    (page.attach parent child place).Linked where
  mem_children_iff := (h.consistent.attach hparent hchild hplace).mem_children_iff
  nodup := (h.consistent.attach hparent hchild hplace).nodup
  acyclic x hx := by
    -- a loop would lead over the new link, from the child up to its parent
    rcases above_attach hchild hx with hx | ⟨ha, hd⟩
    · exact h.acyclic x hx
    · rcases ha with rfl | ha <;> rcases hd with rfl | hd
      · exact hne rfl
      · exact hloop hd
      · exact hloop ha
      · exact hloop (hd.trans ha)

end Attach

/-! ## Replacing -/

section Replace

variable {old new p : NodeId}

theorem replace_eq (hold : page.parent? old = some p) :
    page.replace old new = (page.attach p new (insertBefore new old)).detach old := by
  rw [replace, hold]
  rfl

theorem replace_of_parent?_eq_none (hold : page.parent? old = none) :
    page.replace old new = page := by
  rw [replace, hold]

theorem replace_sameFrame : page.SameFrame (page.replace old new) := by
  cases hold : page.parent? old with
  | none => rw [replace_of_parent?_eq_none hold]; exact .refl _
  | some p => rw [replace_eq hold]; exact attach_sameFrame.trans detach_sameFrame

theorem has_replace : (page.replace old new).Has x ↔ page.Has x := by
  cases hold : page.parent? old with
  | none => rw [replace_of_parent?_eq_none hold]
  | some p => rw [replace_eq hold, has_detach, has_attach]

theorem kind?_replace : (page.replace old new).kind? x = page.kind? x := by
  cases hold : page.parent? old with
  | none => rw [replace_of_parent?_eq_none hold]
  | some p => rw [replace_eq hold, kind?_detach, kind?_attach]

theorem parent?_replace (hold : page.parent? old = some p) (hnew : page.Has new) :
    (page.replace old new).parent? x
      = if x = old then none else if x = new then some p else page.parent? x := by
  rw [replace_eq hold, parent?_detach, parent?_attach hnew]

theorem Linked.replace (h : page.Linked) (hold : page.parent? old = some p) (hnew : page.Has new)
    (hne : new ≠ p) (hloop : ¬ page.Above new p) : (page.replace old new).Linked := by
  rw [replace_eq hold]
  exact (h.attach (h.has_parent hold) hnew (isPlacement_insertBefore new old) hne hloop).detach

/-- The new node stands where the old one stood. -/
theorem Consistent.children_replace (h : page.Consistent) (hold : page.parent? old = some p)
    (hnew : page.Has new) (hne : new ≠ old) : (page.replace old new).children x
      = ((page.children x).filter (· != new)).map fun y => if y = old then new else y := by
  have hattach : (page.attach p new (insertBefore new old)).Consistent :=
    h.attach (h.has_parent hold) hnew (isPlacement_insertBefore new old)
  rw [replace_eq hold, hattach.children_detach, h.children_attach (h.has_parent hold)]
  split
  · next hx =>
    -- under the parent both stand side by side until the old one is taken out
    have hmem : old ∈ page.children x := by rw [hx, h.mem_children_iff]; exact hold
    refine filter_insertBefore ((h.nodup x).filter _) ?_ hne
    rw [List.mem_filter]
    exact ⟨hmem, by simpa using hne.symm⟩
  · next hx =>
    -- elsewhere the old one is no child
    have hother : ∀ y ∈ (page.children x).filter (· != new), y ≠ old := by
      intro y hy hyo
      have hyx := (h.mem_children_iff x y).mp (List.mem_filter.mp hy).1
      rw [hyo, hold] at hyx
      exact hx (Option.some.inj hyx).symm
    rw [List.filter_eq_self.mpr fun y hy => by simpa using hother y hy]
    exact ((List.map_congr_left fun y hy => if_neg (hother y hy)).trans (List.map_id _)).symm

theorem Linked.children_replace (h : page.Linked) (hold : page.parent? old = some p)
    (hnew : page.Has new) (hne : new ≠ old) : (page.replace old new).children x
      = ((page.children x).filter (· != new)).map fun y => if y = old then new else y :=
  h.consistent.children_replace hold hnew hne

end Replace

/-! ## Moving all children -/

section MoveChildren

variable {source target : NodeId}

/-- One turn of `moveChildren`, over a child that its old parent has given up already. -/
def adopt (target : NodeId) (page : Page) (child : NodeId) : Page :=
  (page.update child ({ · with parent := none })).appendChild target child

theorem moveChildren_eq : page.moveChildren source target
    = (page.children source).foldl (adopt target) (page.update source ({ · with children := [] })) :=
  rfl

theorem adopt_sameFrame : page.SameFrame (adopt target page id) := by
  rw [adopt, appendChild]
  exact (update_sameFrame _).trans attach_sameFrame

theorem has_adopt : (adopt target page id).Has x ↔ page.Has x := by
  rw [adopt, appendChild, has_attach, has_update]

/-- Adopting does not change what nodes are. -/
theorem kind?_adopt : (adopt target page id).kind? x = page.kind? x := by
  rw [adopt, appendChild, kind?_attach, kind?_update]
  split
  · rfl
  · rfl

/-- An adopted node has the target for its parent. -/
theorem parent?_adopt (hid : page.Has id) :
    (adopt target page id).parent? x = if x = id then some target else page.parent? x := by
  rw [adopt, appendChild, parent?_attach ((has_update _).mpr hid), parent?_update]
  split
  · rfl
  · rfl

/-- An adopted node comes last among the children of the target. -/
theorem children_adopt (htarget : page.Has target) :
    (adopt target page id).children x
      = if x = target then page.children x ++ [id] else page.children x := by
  -- the child was given up before, so that attaching it takes it from nowhere
  have hparent : (page.update id ({ · with parent := none })).parent? id = none := by
    rw [parent?_update, if_pos rfl]
    cases page.node? id <;> rfl
  have hchildren : ∀ y, (page.update id ({ · with parent := none })).children y = page.children y := by
    intro y
    rw [children_update]
    split <;> rfl
  rw [adopt, appendChild, children_attach ((has_update _).mpr htarget), children_detach, hparent,
    hchildren]
  simp

section Fold

variable (cs : List NodeId)

theorem foldl_adopt_sameFrame : page.SameFrame (cs.foldl (adopt target) page) := by
  induction cs generalizing page with
  | nil => exact .refl _
  | cons c cs ih => exact adopt_sameFrame.trans ih

theorem has_foldl_adopt : (cs.foldl (adopt target) page).Has x ↔ page.Has x := by
  induction cs generalizing page with
  | nil => rfl
  | cons c cs ih => rw [List.foldl_cons, ih, has_adopt]

theorem kind?_foldl_adopt : (cs.foldl (adopt target) page).kind? x = page.kind? x := by
  induction cs generalizing page with
  | nil => rfl
  | cons c cs ih => rw [List.foldl_cons, ih, kind?_adopt]

/-- All nodes of a list are adopted. -/
theorem parent?_foldl_adopt (hcs : ∀ c ∈ cs, page.Has c) :
    (cs.foldl (adopt target) page).parent? x
      = if x ∈ cs then some target else page.parent? x := by
  induction cs generalizing page with
  | nil => rfl
  | cons c cs ih =>
    have hc : page.Has c := hcs c List.mem_cons_self
    rw [List.foldl_cons, ih fun d hd => has_adopt.mpr (hcs d (List.mem_cons_of_mem _ hd)),
      parent?_adopt hc]
    by_cases hx : x = c <;> simp [hx]

/-- The nodes of a list come last, in their order. -/
theorem children_foldl_adopt (htarget : page.Has target) :
    (cs.foldl (adopt target) page).children x
      = if x = target then page.children x ++ cs else page.children x := by
  induction cs generalizing page with
  | nil => simp
  | cons c cs ih =>
    rw [List.foldl_cons, ih (has_adopt.mpr htarget), children_adopt htarget]
    split <;> simp

end Fold

theorem moveChildren_sameFrame : page.SameFrame (page.moveChildren source target) :=
  (update_sameFrame _).trans (foldl_adopt_sameFrame _)

theorem has_moveChildren : (page.moveChildren source target).Has x ↔ page.Has x := by
  rw [moveChildren_eq, has_foldl_adopt, has_update]

theorem kind?_moveChildren : (page.moveChildren source target).kind? x = page.kind? x := by
  rw [moveChildren_eq, kind?_foldl_adopt, kind?_update]
  split <;> rfl

/-- Exactly the children of the source have the target for their parent instead. -/
theorem Consistent.parent?_moveChildren (h : page.Consistent) :
    (page.moveChildren source target).parent? x
      = if page.parent? x = some source then some target else page.parent? x := by
  rw [moveChildren_eq, parent?_foldl_adopt _ fun c hc => (has_update _).mpr (h.has_child hc),
    parent?_update]
  -- the children that are walked over are those whose parent is `source`
  simp only [h.mem_children_iff]
  split
  · rfl
  · split <;> rfl

theorem Linked.parent?_moveChildren (h : page.Linked) :
    (page.moveChildren source target).parent? x
      = if page.parent? x = some source then some target else page.parent? x :=
  h.consistent.parent?_moveChildren

/-- The source is left without children, and the target has them behind its own. -/
theorem children_moveChildren (htarget : page.Has target) (hne : source ≠ target) :
    (page.moveChildren source target).children x
      = if x = source then []
        else if x = target then page.children target ++ page.children source
        else page.children x := by
  rw [moveChildren_eq, children_foldl_adopt _ ((has_update _).mpr htarget), children_update]
  by_cases hs : x = source
  · subst hs
    rw [if_neg hne, if_pos rfl, if_pos rfl]
    cases page.node? x <;> rfl
  · rw [if_neg hs, if_neg hs]
    split
    · next ht => rw [ht]
    · rfl

/-- Moved children put nodes above others only through their new parent. -/
theorem Linked.above_moveChildren (h : page.Linked) {a d : NodeId}
    (had : (page.moveChildren source target).Above a d) :
    page.Above a d ∨ (a = target ∨ page.Above a target) ∧ page.Above source d := by
  induction had with
  | single hd =>
    rw [h.parent?_moveChildren] at hd
    split at hd
    · next hsource => exact .inr ⟨.inl (Option.some.inj hd).symm, .of_parent? hsource⟩
    · exact .inl (.of_parent? hd)
  | tail _ hd ih =>
    rw [h.parent?_moveChildren] at hd
    split at hd
    -- the last step goes over a moved link, so the way so far ends at `target`
    · next hsource =>
      obtain rfl := Option.some.inj hd
      rcases ih with ih | ⟨ih, _⟩
      · exact .inr ⟨.inr ih, .of_parent? hsource⟩
      · exact .inr ⟨ih, .of_parent? hsource⟩
    · rcases ih with ih | ⟨ha, hb⟩
      · exact .inl (ih.child hd)
      · exact .inr ⟨ha, hb.child hd⟩

/-- Moving children keeps a page linked, if the target is not inside the source. -/
theorem Linked.moveChildren (h : page.Linked) (htarget : page.Has target) (hne : source ≠ target)
    (hloop : ¬ page.Above source target) : (page.moveChildren source target).Linked where
  mem_children_iff p c := by
    rw [children_moveChildren htarget hne, h.parent?_moveChildren]
    -- a moved child is gone from `source` and new at `target`; any other is where it was
    by_cases hc : page.parent? c = some source
    · rw [if_pos hc]
      by_cases hs : p = source
      · subst hs
        simp [Ne.symm hne]
      · by_cases ht : p = target
        · subst ht
          simp [hs, h.mem_children_iff, hc]
        · have hp : target ≠ p := Ne.symm ht
          simp [hs, ht, h.mem_children_iff, hc, hp, Ne.symm hs]
    · rw [if_neg hc]
      by_cases hs : p = source
      · subst hs
        simp [hc]
      · by_cases ht : p = target
        · subst ht
          simp [hs, h.mem_children_iff, hc]
        · simp [hs, ht, h.mem_children_iff]
  nodup p := by
    rw [children_moveChildren htarget hne]
    split
    · exact List.nodup_nil
    · split
      · refine List.nodup_append.mpr ⟨h.nodup _, h.nodup _, fun c hc d hd hcd => ?_⟩
        -- one node cannot have two parents
        rw [h.mem_children_iff] at hc hd
        rw [hcd, hd] at hc
        exact hne (Option.some.inj hc)
      · exact h.nodup p
  acyclic x hx := by
    -- a loop would lead over a moved child, from `source` to `target`
    rcases h.above_moveChildren hx with hx | ⟨rfl | ha, hd⟩
    · exact h.acyclic x hx
    · exact hloop hd
    · exact hloop (hd.trans ha)

end MoveChildren

/-! ## Attaching a new node -/

/-- Pages with the same nodes have the same node next. -/
theorem next_eq_of_has {page page' : Page} (h : ∀ x, page'.Has x ↔ page.Has x) :
    page'.next = page.next := by
  have hle := h page.next
  have hge := h page'.next
  simp only [Has, next] at hle hge
  simp only [next, NodeId.mk.injEq]
  omega

theorem Linked.not_above_next (h : page.Linked) : ¬ page.Above page.next x :=
  fun hx => not_has_next (h.has_of_above hx)

theorem Linked.next_not_mem_children (h : page.Linked) : page.next ∉ page.children x :=
  fun hx => not_has_next (h.has_child hx)

/-- Creates a node and makes it a child at once. -/
def attachNew (page : Page) (kind : NodeKind) (parent : NodeId)
    (place : List NodeId → List NodeId) : Page :=
  (page.create kind).1.attach parent page.next place

section AttachNew

variable {kind : NodeKind} {parent : NodeId} {place : List NodeId → List NodeId}

theorem attachNew_sameFrame : page.SameFrame (page.attachNew kind parent place) := by
  rw [attachNew]
  exact (create_sameFrame _).trans attach_sameFrame

theorem has_attachNew : (page.attachNew kind parent place).Has x ↔ page.Has x ∨ x = page.next := by
  rw [attachNew, has_attach, has_create]

theorem kind?_attachNew : (page.attachNew kind parent place).kind? x
    = if x = page.next then some kind else page.kind? x := by
  rw [attachNew, kind?_attach, kind?_create]

theorem attachNew_sameKinds : page.SameKinds (page.attachNew kind parent place) :=
  (create_sameKinds kind).trans attach_sameKinds

theorem parent?_attachNew : (page.attachNew kind parent place).parent? x
    = if x = page.next then some parent else page.parent? x := by
  rw [attachNew, parent?_attach ((has_create _).mpr (.inr rfl)), (create_sameLinks _).parent?]

/-- The new node is in its place among the children of its parent. -/
theorem Linked.children_attachNew (h : page.Linked) (hparent : page.Has parent) :
    (page.attachNew kind parent place).children x
      = if x = parent then place (page.children x) else page.children x := by
  have hfilter : (page.children x).filter (· != page.next) = page.children x :=
    List.filter_eq_self.mpr fun c hc => by
      rw [bne_iff_ne]
      rintro rfl
      exact h.next_not_mem_children hc
  rw [attachNew, ((create_sameLinks _).linked h).children_attach ((has_create _).mpr (.inl hparent)),
    (create_sameLinks _).children, hfilter]

end AttachNew

/-! ## Appending detached nodes -/

section AppendAll

variable {parent : NodeId} {cs : List NodeId}

theorem appendAll_cons (c : NodeId) :
    page.appendAll parent (c :: cs) = (page.appendChild parent c).appendAll parent cs :=
  rfl

/-- Appending does not touch the frame. -/
theorem appendAll_sameFrame : page.SameFrame (page.appendAll parent cs) := by
  induction cs generalizing page with
  | nil => exact .refl _
  | cons c cs ih =>
    rw [appendAll_cons]
    exact attach_sameFrame.trans ih

theorem kind?_appendAll : (page.appendAll parent cs).kind? x = page.kind? x := by
  induction cs generalizing page with
  | nil => rfl
  | cons c cs ih => rw [appendAll_cons, ih, appendChild, kind?_attach]

/-- All nodes of the list have the parent. -/
theorem parent?_appendAll (hcs : ∀ c ∈ cs, page.Has c) :
    (page.appendAll parent cs).parent? x = if x ∈ cs then some parent else page.parent? x := by
  induction cs generalizing page with
  | nil => rfl
  | cons c cs ih =>
    obtain ⟨hc, hcs⟩ := List.forall_mem_cons.mp hcs
    have hhas : ∀ d ∈ cs, (page.appendChild parent c).Has d := fun d hd => has_attach.mpr (hcs d hd)
    rw [appendAll_cons, ih hhas, appendChild, parent?_attach hc]
    by_cases hx : x = c <;> simp [hx]

/-- Detached nodes come last among the children, in their order. -/
theorem children_appendAll (hparent : page.Has parent) (hnodup : cs.Nodup)
    (hdetached : ∀ c ∈ cs, page.parent? c = none) :
    (page.appendAll parent cs).children x
      = if x = parent then page.children x ++ cs else page.children x := by
  induction cs generalizing page with
  | nil => simp [appendAll]
  | cons c cs ih =>
    obtain ⟨hc, hnodup⟩ := List.nodup_cons.mp hnodup
    obtain ⟨hcDetached, hdetached⟩ := List.forall_mem_cons.mp hdetached
    have hone : (page.appendChild parent c).children x
        = if x = parent then page.children x ++ [c] else page.children x := by
      rw [appendChild, children_attach hparent, children_detach, hcDetached]
      simp
    have hhas : (page.appendChild parent c).Has parent := has_attach.mpr hparent
    rw [appendAll_cons, ih hhas hnodup, hone]
    -- the ones still to come are detached as before
    · split <;> simp
    · intro d hd
      have hne : d ≠ c := by
        rintro rfl
        exact hc hd
      rw [appendChild, parent?_attach_of_ne hne, hdetached d hd]

end AppendAll

/-! ## Text content -/

section SetTextContent

variable (content : String)

/-- The nodes that a text content is made of: one text, or none when it is empty. -/
def textNodes (page : Page) (content : String) : List NodeId :=
  if content.isEmpty then [] else [page.next]

theorem next_detachAll (ids : List NodeId) : (page.detachAll ids).next = page.next :=
  next_eq_of_has fun _ => has_detachAll ids

/-- The children are detached, and a text is made in their place unless it is empty. -/
theorem setTextContent_eq : page.setTextContent id content
    = if content.isEmpty then page.detachAll (page.children id)
      else (page.detachAll (page.children id)).attachNew (.text content) id (· ++ [page.next]) := by
  rw [setTextContent, attachNew, next_detachAll, ← next_detachAll (page.children id)]
  rfl

/-- Writing a text does not touch the frame. -/
theorem setTextContent_sameFrame : page.SameFrame (page.setTextContent id content) := by
  rw [setTextContent_eq]
  split
  · exact detachAll_sameFrame _
  · exact (detachAll_sameFrame _).trans attachNew_sameFrame

/-- At most the new text comes in. -/
theorem has_setTextContent :
    (page.setTextContent id content).Has x ↔ page.Has x ∨ x ∈ page.textNodes content := by
  rw [setTextContent_eq, textNodes]
  split
  · simp [has_detachAll]
  · simp [has_attachNew, has_detachAll, next_detachAll]

/-- The new text has the content, and all other nodes are what they were. -/
theorem kind?_setTextContent : (page.setTextContent id content).kind? x
    = if x ∈ page.textNodes content then some (.text content) else page.kind? x := by
  rw [setTextContent_eq, textNodes]
  split
  · simp [kind?_detachAll]
  · simp [kind?_attachNew, kind?_detachAll, next_detachAll]

/-- The old children have no parent any more, and the new text has. -/
theorem Linked.parent?_setTextContent (h : page.Linked) :
    (page.setTextContent id content).parent? x
      = if x ∈ page.textNodes content then some id
        else if page.parent? x = some id then none else page.parent? x := by
  rw [setTextContent_eq, textNodes]
  split
  · simp [parent?_detachAll, h.mem_children_iff]
  · simp [parent?_attachNew, parent?_detachAll, next_detachAll, h.mem_children_iff]

/-- The new text is the only child. -/
theorem Linked.children_setTextContent (h : page.Linked) (hid : page.Has id) :
    (page.setTextContent id content).children x
      = if x = id then page.textNodes content else page.children x := by
  rw [setTextContent_eq, textNodes]
  split
  · exact h.children_detachAll_children
  · rw [(h.detachAll _).children_attachNew ((has_detachAll _).mpr hid), h.children_detachAll_children]
    split <;> rfl

end SetTextContent

end Page

end AmpTuner
