import AmpTuner.Proofs.Pass.WellFormed
import AmpTuner.Proofs.Text.Collapse

/-!
# What minification leaves of a page

The pass walks a list of nodes that was taken before the first change and looks at each node as the changes so
far have left it. It makes no difference: what becomes of a node depends on what the node holds, on its parent and
on the tags above it, and a turn at another node changes none of these, since only texts and comments are taken
out and nothing stands below them.

* **`fate`** is what becomes of a node, and **`fate_minifyNode`** says that it does not change before its turn.
* **`Stage`** is a page after any number of turns, told by the fates in the page before; **`stage_foldl`** puts the
  turns together.
* **`Minifies`** is the result in terms of the page alone, without fates, and **`minifies_once`** adds that a second
  run finds nothing to do.
-/

namespace AmpTuner.Minify

variable {s : Settings.Minify} {page page' : Page} {id x : NodeId} {ids : List NodeId}

/-! ## One turn -/

/-- What may become of a node in its turn. -/
inductive Fate where
  | keep
  | drop
  | rewrite (content : String)
deriving DecidableEq

/-- What becomes of the node in its turn. -/
def fate (s : Settings.Minify) (page : Page) (id : NodeId) : Fate :=
  if isPreserved page id then .keep
  else
    match page.kind? id with
    | some (.comment _) => if s.removeComments then .drop else .keep
    | some (.text content) =>
      if !s.collapseBlanks then .keep
      else if Text.isAllBlank content && page.parent? id == some page.head then .drop
      else .rewrite (Text.collapse content)
    | _ => .keep

namespace Fate

/-- The page after a turn with that outcome. -/
def apply (page : Page) (id : NodeId) : Fate → Page
  | keep => page
  | drop => page.detach id
  | rewrite content => page.setContent id content

/-- What the node holds afterwards. -/
def written (kind : Option NodeKind) : Fate → Option NodeKind
  | rewrite content => some (.text content)
  | _ => kind

end Fate

/-- A turn is decided by looking at the node, and then carried out. -/
theorem minifyNode_eq (s : Settings.Minify) (page : Page) (id : NodeId) :
    minifyNode s page id = (fate s page id).apply page id := by
  unfold minifyNode fate
  generalize page.kind? id = kind
  split
  · rfl
  · rcases kind with _ | (_ | content | content)
    · rfl
    · rfl
    · dsimp only
      split
      · rfl
      · split <;> rfl
    · dsimp only
      split <;> rfl

/-- What becomes of a node depends on its own content, on its parent and on what it is inside. -/
theorem fate_congr (hpreserved : isPreserved page' id = isPreserved page id)
    (hkind : page'.kind? id = page.kind? id) (hparent : page'.parent? id = page.parent? id)
    (hhead : page'.head = page.head) : fate s page' id = fate s page id := by
  rw [fate, fate, hpreserved, hkind, hparent, hhead]

/-- A text is rewritten unless it is left alone or taken out. -/
theorem fate_eq_rewrite_iff {content : String} : fate s page id = .rewrite content
    ↔ isPreserved page id = false ∧ s.collapseBlanks = true ∧ ∃ former, page.kind? id = some (.text former)
      ∧ ¬ (Text.isAllBlank former = true ∧ page.parent? id = some page.head) ∧ content = Text.collapse former := by
  unfold fate
  generalize page.kind? id = kind
  rcases kind with _ | (_ | former | former)
  · simp
  · simp
  · cases isPreserved page id
    · cases s.collapseBlanks
      · simp
      · simp [ite_eq_iff, eq_comm (a := content)]
    · simp
  · cases isPreserved page id <;> cases s.removeComments <;> simp

/-- What is taken out is a comment, or a blank text right below the head. -/
theorem fate_eq_drop_iff : fate s page id = .drop
    ↔ isPreserved page id = false ∧ ((s.removeComments = true ∧ ∃ content, page.kind? id = some (.comment content))
      ∨ (s.collapseBlanks = true ∧ ∃ content, page.kind? id = some (.text content) ∧ Text.isAllBlank content = true
        ∧ page.parent? id = some page.head)) := by
  unfold fate
  generalize page.kind? id = kind
  rcases kind with _ | (_ | content | content)
  · simp
  · simp
  · cases isPreserved page id
    · cases s.collapseBlanks
      · simp
      · simp
    · simp
  · cases isPreserved page id <;> cases s.removeComments <;> simp

/-- No element is dropped or written anew. -/
theorem element?_of_fate_ne (h : fate s page id ≠ .keep) : page.element? id = none := by
  unfold fate at h
  rw [Page.element?]
  split at h
  · exact absurd rfl h
  · split at h
    · next hkind => rw [hkind]; rfl
    · next hkind => rw [hkind]; rfl
    · exact absurd rfl h

section Turn

/-- A turn leaves the frame of the page. -/
theorem minifyNode_sameFrame : page.SameFrame (minifyNode s page id) := by
  rw [minifyNode_eq]
  cases fate s page id with
  | keep => exact .refl _
  | drop => exact Page.detach_sameFrame
  | rewrite content => exact Page.setContent_sameFrame content

/-- A turn takes at most its node out. -/
theorem parent?_minifyNode : (minifyNode s page id).parent? x
    = if x = id ∧ fate s page id = .drop then none else page.parent? x := by
  rw [minifyNode_eq]
  cases fate s page id with
  | keep => simp [Fate.apply]
  | drop => simp [Fate.apply, Page.parent?_detach]
  | rewrite content => simp [Fate.apply, (Page.setContent_sameLinks content).parent?]

/-- A turn writes at most its node. -/
theorem kind?_minifyNode : (minifyNode s page id).kind? x
    = if x = id then (fate s page id).written (page.kind? x) else page.kind? x := by
  rw [minifyNode_eq]
  cases hfate : fate s page id with
  | keep => simp [Fate.apply, Fate.written]
  | drop => simp [Fate.apply, Fate.written, Page.kind?_detach]
  | rewrite content =>
    obtain ⟨-, -, former, hkind, -⟩ := fate_eq_rewrite_iff.mp hfate
    split
    · next hx =>
      rw [hx]
      exact Page.kind?_setContent_text hkind
    · next hx => exact Page.kind?_setContent_of_ne hx

/-- A turn changes no element. -/
theorem element?_minifyNode : (minifyNode s page id).element? x = page.element? x := by
  rw [minifyNode_eq]
  cases fate s page id with
  | keep => rfl
  | drop => exact Page.element?_congr Page.kind?_detach
  | rewrite content => exact Page.element?_setContent content

/-- Children stay in their order, without the node that is dropped. -/
theorem children_minifyNode (h : page.Linked) : (minifyNode s page id).children x
    = (page.children x).filter fun c => !decide (c = id ∧ fate s page id = .drop) := by
  rw [minifyNode_eq]
  cases fate s page id with
  | keep => simp [Fate.apply]
  | drop =>
    rw [Fate.apply, h.children_detach]
    exact List.filter_congr fun c _ => by by_cases hc : c = id <;> simp [hc]
  | rewrite content => simp [Fate.apply, (Page.setContent_sameLinks content).children]

end Turn

/-! ## Other nodes -/

section Others

variable (h : page.WellFormed)

include h

/-- Nothing is above a node that was not there before, and only a node that is dropped loses what is above it: it is
no element, so that it has nothing below it. -/
theorem above_minifyNode (hx : x ≠ id ∨ fate s page id ≠ .drop) {a : NodeId} :
    (minifyNode s page id).Above a x ↔ page.Above a x := by
  by_cases hdrop : fate s page id = .drop
  · have hleaf : page.children id = [] := h.leaf id (element?_of_fate_ne (by rw [hdrop]; exact Fate.noConfusion))
    refine h.linked.above_congr (S := (· ≠ id)) (fun d p _ hp => ?_) (fun d hd => ?_)
      (hx.resolve_right (not_not_intro hdrop))
    · rintro rfl
      have hmem := (h.linked.mem_children_iff p d).mpr hp
      rw [hleaf] at hmem
      cases hmem
    · rw [parent?_minifyNode, if_neg fun hd' => hd hd'.1]
  · refine h.linked.above_congr (S := fun _ => True) (fun _ _ _ _ => trivial) (fun d _ => ?_) trivial
    rw [parent?_minifyNode, if_neg fun hd => hdrop hd.2]

/-- A node that stays is inside the same elements. -/
theorem isPreserved_minifyNode (hx : x ≠ id ∨ fate s page id ≠ .drop) :
    isPreserved (minifyNode s page id) x = isPreserved page x := by
  have hlinked : (minifyNode s page id).Linked := (maintains_minifyNode h s id).wellFormed.linked
  refine List.any_congr rfl fun tag => ?_
  rw [Bool.eq_iff_iff, hlinked.hasAncestor_iff, h.linked.hasAncestor_iff]
  refine exists_congr fun a => and_congr (above_minifyNode h hx) ?_
  rw [Page.isTag, Page.isTag, Page.tag?, Page.tag?, element?_minifyNode]

/-- A turn does not touch what becomes of another node. -/
theorem fate_minifyNode (hx : x ≠ id) : fate s (minifyNode s page id) x = fate s page x := by
  have hkind : (minifyNode s page id).kind? x = page.kind? x := by rw [kind?_minifyNode, if_neg hx]
  have hparent : (minifyNode s page id).parent? x = page.parent? x := by
    rw [parent?_minifyNode, if_neg fun hdropped => hx hdropped.1]
  exact fate_congr (isPreserved_minifyNode h (.inl hx)) hkind hparent minifyNode_sameFrame.head

end Others

/-! ## All turns -/

/-- The page after a turn for each of the nodes. -/
structure Stage (s : Settings.Minify) (page : Page) (ids : List NodeId) (page' : Page) : Prop where
  wellFormed : page'.WellFormed
  frame : page.SameFrame page'
  element? : ∀ x, page'.element? x = page.element? x
  kind? : ∀ x, page'.kind? x = if x ∈ ids then (fate s page x).written (page.kind? x) else page.kind? x
  parent? : ∀ x, page'.parent? x = if x ∈ ids ∧ fate s page x = .drop then none else page.parent? x
  children : ∀ x, page'.children x = (page.children x).filter fun c => !decide (c ∈ ids ∧ fate s page c = .drop)
  isPreserved : ∀ x, ¬ (x ∈ ids ∧ fate s page x = .drop) → isPreserved page' x = isPreserved page x

/-- The turns over a list of different nodes do what is decided before the first. By induction on the list. -/
theorem stage_foldl (h : page.WellFormed) (hids : ids.Nodup) : Stage s page ids (ids.foldl (minifyNode s) page) := by
  induction ids generalizing page with
  | nil => exact ⟨h, .refl _, fun _ => rfl, fun _ => by simp, fun _ => by simp, fun _ => by simp, fun _ _ => rfl⟩
  | cons id ids ih =>
    obtain ⟨hid, hids⟩ := List.nodup_cons.mp hids
    have hturn := maintains_minifyNode h s id
    have hrest := ih hturn.wellFormed hids
    have hfate (c : NodeId) (hc : c ∈ ids) : fate s (minifyNode s page id) c = fate s page c :=
      fate_minifyNode h fun heq => hid (heq ▸ hc)
    have hdrop (c : NodeId) : (c ∈ ids ∧ fate s (minifyNode s page id) c = .drop) ↔ c ∈ ids ∧ fate s page c = .drop :=
      and_congr_right fun hc => by rw [hfate c hc]
    have hcons (c : NodeId) : (c ∈ id :: ids ∧ fate s page c = .drop)
        ↔ (c = id ∧ fate s page id = .drop) ∨ c ∈ ids ∧ fate s page c = .drop := by
      rw [List.mem_cons, or_and_right]
      exact or_congr_left (and_congr_right fun hc => by rw [hc])
    rw [List.foldl_cons]
    exact {
      wellFormed := hrest.wellFormed
      frame := minifyNode_sameFrame.trans hrest.frame
      element? := fun x => (hrest.element? x).trans element?_minifyNode
      kind? := fun x => by
        rw [hrest.kind?, kind?_minifyNode]
        by_cases hx : x = id
        · subst hx
          rw [if_neg hid, if_pos rfl, if_pos List.mem_cons_self]
        · by_cases hmem : x ∈ ids
          · rw [if_pos hmem, if_neg hx, if_pos (List.mem_cons_of_mem _ hmem), hfate x hmem]
          · rw [if_neg hmem, if_neg hx, if_neg (List.not_mem_cons_of_ne_of_not_mem hx hmem)]
      parent? := fun x => by
        rw [hrest.parent?, parent?_minifyNode, if_congr (hdrop x) rfl rfl, if_congr (hcons x) rfl rfl]
        by_cases hx : x ∈ ids ∧ fate s page x = .drop
        · rw [if_pos hx, if_pos (.inr hx)]
        · rw [if_neg hx, if_congr (or_iff_left hx) rfl rfl]
      children := fun x => by
        rw [hrest.children, children_minifyNode h.linked, List.filter_filter]
        refine List.filter_congr fun c _ => ?_
        simp only [hdrop c, hcons c, Bool.decide_or, Bool.not_or]
        exact Bool.and_comm _ _
      isPreserved := fun x hx => by
        rw [hcons, not_or] at hx
        rw [hrest.isPreserved x (by rw [hdrop]; exact hx.2), isPreserved_minifyNode h (not_and_or.mp hx.1)] }

/-! ## The page alone -/

/-- The node is inside an element whose content counts to the byte. -/
def IsExact (page : Page) (x : NodeId) : Prop :=
  ∃ a el, page.Above a x ∧ page.element? a = some el ∧ el.tag ∈ ["pre", "textarea", "script", "style"]

/-- The node is taken out. -/
inductive Goes (s : Settings.Minify) (page : Page) (x : NodeId) : Prop
  | comment {content : String} (hon : s.removeComments = true) (hkind : page.kind? x = some (.comment content))
      (hx : page.Above page.root x) (hexact : ¬ IsExact page x)
  | blank {content : String} (hon : s.collapseBlanks = true) (hkind : page.kind? x = some (.text content))
      (hblank : Text.isAllBlank content = true) (hparent : page.parent? x = some page.head)

/-- The node is a text whose runs of blanks shrink. -/
structure Shrinks (s : Settings.Minify) (page : Page) (x : NodeId) : Prop where
  on : s.collapseBlanks = true
  above : page.Above page.root x
  text : ∃ content, page.kind? x = some (.text content)
  not_isExact : ¬ IsExact page x
  not_goes : ¬ Goes s page x

/-- The test of the pass is for being inside exact text. -/
theorem isPreserved_iff (h : page.Linked) : isPreserved page x = true ↔ IsExact page x := by
  rw [isPreserved, List.any_eq_true]
  constructor
  · rintro ⟨tag, htag, hx⟩
    obtain ⟨a, ha, hatag⟩ := h.hasAncestor_iff.mp hx
    obtain ⟨el, hel, rfl⟩ := Page.isTag_iff.mp hatag
    exact ⟨a, el, ha, hel, htag⟩
  · rintro ⟨a, el, ha, hel, htag⟩
    exact ⟨el.tag, htag, h.hasAncestor_iff.mpr ⟨a, ha, Page.isTag_iff.mpr ⟨el, hel, rfl⟩⟩⟩

theorem isPreserved_eq_false_iff (h : page.Linked) : isPreserved page x = false ↔ ¬ IsExact page x := by
  rw [← isPreserved_iff h, Bool.not_eq_true]

section Goes

variable (h : page.WellFormed)

include h

/-- Only the head and the root are above a child of the head. -/
theorem not_isExact_of_parent?_head (hparent : page.parent? x = some page.head) : ¬ IsExact page x := by
  rintro ⟨a, el, ha, hel, htag⟩
  have hplain : ∀ tag ∈ preservedTags, tag ∉ ["html", "head", "body"] := by decide
  have hfixed : ¬ page.IsFixed a := h.not_isFixed_of_tag? (by rw [Page.tag?, hel, Option.map_some]) (hplain el.tag htag)
  rcases (Page.above_of_parent? hparent).mp ha with rfl | ha
  · exact hfixed (.inr (.inl rfl))
  · exact hfixed (.inl (h.above_head_iff.mp ha))

/-- The nodes that go are those of the page that are to be dropped. -/
theorem goes_iff : Goes s page x ↔ page.Above page.root x ∧ fate s page x = .drop := by
  rw [fate_eq_drop_iff, isPreserved_eq_false_iff h.linked]
  constructor
  · rintro (⟨hon, hkind, hx, hexact⟩ | ⟨hon, hkind, hblank, hparent⟩)
    · exact ⟨hx, hexact, .inl ⟨hon, _, hkind⟩⟩
    · have hx : page.Above page.root x := (Page.Above.of_parent? h.parent?_head).child hparent
      exact ⟨hx, not_isExact_of_parent?_head h hparent, .inr ⟨hon, _, hkind, hblank, hparent⟩⟩
  · rintro ⟨hx, hexact, ⟨hon, _, hkind⟩ | ⟨hon, _, hkind, hblank, hparent⟩⟩
    · exact .comment hon hkind hx hexact
    · exact .blank hon hkind hblank hparent

theorem IsExact.not_goes (hexact : IsExact page x) : ¬ Goes s page x := by
  rintro (⟨-, -, -, hnot⟩ | ⟨-, -, -, hparent⟩)
  · exact hnot hexact
  · exact not_isExact_of_parent?_head h hparent hexact

/-- The nodes that shrink are those of the page that are to be written anew. -/
theorem shrinks_iff : Shrinks s page x ↔ page.Above page.root x ∧ ∃ content, fate s page x = .rewrite content := by
  constructor
  · rintro ⟨hon, hx, ⟨former, hkind⟩, hexact, hgoes⟩
    refine ⟨hx, Text.collapse former, fate_eq_rewrite_iff.mpr ?_⟩
    refine ⟨(isPreserved_eq_false_iff h.linked).mpr hexact, hon, former, hkind, ?_, rfl⟩
    exact fun hblank => hgoes (.blank hon hkind hblank.1 hblank.2)
  · rintro ⟨hx, content, hfate⟩
    obtain ⟨hexact, hon, former, hkind, hblank, -⟩ := fate_eq_rewrite_iff.mp hfate
    refine ⟨hon, hx, ⟨former, hkind⟩, (isPreserved_eq_false_iff h.linked).mp hexact, fun hgoes => ?_⟩
    have hdrop := ((goes_iff h).mp hgoes).2
    rw [hfate] at hdrop
    cases hdrop

end Goes

/-- The second page is the first without the comments and texts that go, and with one space for each run of blanks
in the texts that shrink. All else is as it was, with the same parents and children in the same order. -/
structure Minifies (s : Settings.Minify) (page page' : Page) : Prop where
  frame : page.SameFrame page'
  element? : ∀ x, page'.element? x = page.element? x
  exact : ∀ x, IsExact page x → page'.kind? x = page.kind? x ∧ page'.parent? x = page.parent? x
  goes : ∀ x, Goes s page x → page'.kind? x = page.kind? x ∧ page'.parent? x = none
  stays : ∀ x, ¬ Goes s page x → page'.parent? x = page.parent? x
  shrinks : ∀ x content, Shrinks s page x → page.kind? x = some (.text content) →
    ∃ content', page'.kind? x = some (.text content') ∧ Text.Collapses content.toList content'.toList
      ∧ content'.toList.filter (!Text.isAsciiBlank ·) = content.toList.filter (!Text.isAsciiBlank ·)
  kind? : ∀ x, ¬ Shrinks s page x → page'.kind? x = page.kind? x
  children : ∀ x, (page'.children x).Sublist (page.children x)
    ∧ ∀ c, c ∈ page'.children x ↔ c ∈ page.children x ∧ ¬ Goes s page c

section Run

variable (h : page.WellFormed)

include h

theorem stage_run : Stage s page (page.descendants page.root) (run s page) := by
  refine stage_foldl h ?_
  rw [h.linked.descendants_eq_preorder]
  exact h.linked.nodup_preorder

/-- What goes, shrinks and stays in one run. -/
theorem minifies_run : Minifies s page (run s page) := by
  have hstage := stage_run (s := s) h
  have hgoes (x : NodeId) : (x ∈ page.descendants page.root ∧ fate s page x = .drop) ↔ Goes s page x := by
    rw [h.linked.mem_descendants_iff, goes_iff h]
  have hparent (x : NodeId) : ¬ Goes s page x → (run s page).parent? x = page.parent? x := fun hx => by
    rw [hstage.parent?, if_neg (mt (hgoes x).mp hx)]
  have hkind (x : NodeId) (hx : ¬ Shrinks s page x) : (run s page).kind? x = page.kind? x := by
    rw [hstage.kind?]
    split
    · next hmem =>
      cases hfate : fate s page x with
      | keep => rfl
      | drop => rfl
      | rewrite content =>
        exact absurd ((shrinks_iff h).mpr ⟨h.linked.mem_descendants_iff.mp hmem, content, hfate⟩) hx
    · rfl
  exact {
    frame := hstage.frame
    element? := hstage.element?
    exact := fun x hx => ⟨hkind x fun hs => hs.not_isExact hx, hparent x (hx.not_goes h)⟩
    goes := fun x hx => ⟨hkind x fun hs => hs.not_goes hx, by rw [hstage.parent?, if_pos ((hgoes x).mpr hx)]⟩
    stays := hparent
    shrinks := fun x content hx hcontent => by
      obtain ⟨habove, content', hfate⟩ := (shrinks_iff h).mp hx
      obtain ⟨-, -, former, hformer, -, rfl⟩ := fate_eq_rewrite_iff.mp hfate
      obtain rfl : former = content := NodeKind.text.inj (Option.some.inj (hformer.symm.trans hcontent))
      have hcollapses : Text.Collapses former.toList (Text.collapse former).toList := Text.collapses_iff.mpr rfl
      refine ⟨Text.collapse former, ?_, hcollapses, hcollapses.filter_eq⟩
      rw [hstage.kind?, if_pos (h.linked.mem_descendants_iff.mpr habove), hfate, Fate.written]
    kind? := hkind
    children := fun x => by
      rw [hstage.children]
      refine ⟨List.filter_sublist, fun c => ?_⟩
      rw [List.mem_filter, Bool.not_eq_true', decide_eq_false_iff_not, hgoes] }

/-- What a first run leaves is left alone by the second: the nodes that went are not found again, and of the others
the fate is the same, or that of a text with no runs in it. -/
theorem minifyNode_run (hx : x ∈ (run s page).descendants (run s page).root) :
    minifyNode s (run s page) x = run s page := by
  have hstage := stage_run (s := s) h
  have habove' : (run s page).Above (run s page).root x := hstage.wellFormed.linked.mem_descendants_iff.mp hx
  have hup {d p : NodeId} (hp : (run s page).parent? d = some p) :
      ¬ (d ∈ page.descendants page.root ∧ fate s page d = .drop) ∧ page.parent? d = some p := by
    rw [hstage.parent?] at hp
    split at hp
    · cases hp
    · next hd => exact ⟨hd, hp⟩
  have habove : page.Above page.root x := hstage.frame.root ▸ habove'.mono fun d p hp => (hup hp).2
  have hmem := h.linked.mem_descendants_iff.mpr habove
  obtain ⟨p, hp⟩ : ∃ p, (run s page).parent? x = some p := by
    cases hnone : (run s page).parent? x with
    | none => exact absurd habove' (Page.not_above_of_parent?_eq_none hnone)
    | some p => exact ⟨p, rfl⟩
  obtain ⟨hnot, hparent⟩ := hup hp
  have hparent : (run s page).parent? x = page.parent? x := hp.trans hparent.symm
  have hpreserved := hstage.isPreserved x hnot
  have hkind := hstage.kind? x
  rw [if_pos hmem] at hkind
  rw [minifyNode_eq]
  cases hfate : fate s page x with
  | keep =>
    rw [hfate] at hkind
    rw [fate_congr hpreserved hkind hparent hstage.frame.head, hfate, Fate.apply]
  | drop => exact absurd ⟨hmem, hfate⟩ hnot
  | rewrite content =>
    obtain ⟨hexact, hon, former, -, hblank, rfl⟩ := fate_eq_rewrite_iff.mp hfate
    rw [hfate, Fate.written] at hkind
    have hagain : fate s (run s page) x = .rewrite (Text.collapse former) := by
      refine fate_eq_rewrite_iff.mpr ⟨hpreserved.trans hexact, hon, _, hkind, ?_, (Text.collapse_collapse _).symm⟩
      rw [Text.isAllBlank_collapse, hparent, hstage.frame.head]
      exact hblank
    rw [hagain, Fate.apply, Page.setContent_eq_self hkind]

/-- A second run finds nothing left to do. -/
theorem run_run : run s (run s page) = run s page := by
  rw [run.eq_def s (run s page)]
  generalize hids : (run s page).descendants (run s page).root = ids
  have hall : ∀ x ∈ ids, minifyNode s (run s page) x = run s page := fun x hx => minifyNode_run h (hids ▸ hx)
  clear hids
  induction ids with
  | nil => rfl
  | cons x ids ih =>
    obtain ⟨hx, hall⟩ := List.forall_mem_cons.mp hall
    rw [List.foldl_cons, hx, ih hall]

/-- Minification does all it does in one run. -/
theorem minifies_once (s : Settings.Minify) :
    Minifies s page (run s page) ∧ run s (run s page) = run s page := ⟨minifies_run h, run_run h⟩

end Run

/-- Blanks and comments in the head, in the body, and in an element that counts to the byte. -/
def notedDocument : Markup.Document :=
  ⟨none, [.element ⟨"head", []⟩ [.text " \n", .comment "a", .element ⟨"meta", []⟩ []],
    .element ⟨"pre", []⟩ [.element ⟨"b", []⟩ [.text "c  d", .comment "e"]], .comment "f", .text "g \n h"]⟩

/-- A page with blank texts in the head and elsewhere, comments, and exact text. -/
theorem minifies_notedDocument :
    let page := Page.ofDocument notedDocument
    page.WellFormed ∧ (Minifies {} page (run {} page) ∧ run {} (run {} page) = run {} page)
      ∧ (run {} page).toHtml
        = "<html><head><meta></head><body><pre><b>c  d<!--e--></b></pre>g h</body></html>" := by
  have h := Page.ofDocument_wellFormed notedDocument
  exact ⟨h, minifies_once h {}, by decide +kernel⟩

end AmpTuner.Minify
