import AmpTuner.Proofs.Page.Loading
import AmpTuner.Proofs.Page.Stylesheet

/-!
# Runs of operations

Any run of operations leaves a page whose links agree, as long as none of them puts a node under
itself or under what is below it.

* **`Operation`** is one call on a page, **`Permitted`** what it asks of the page: that its nodes are
  there and that its moves close no loop. A mark may be any node, the moved one included.
* **`Carries`** is what one operation hands on to the next (`Linked.perform`, a case for each
  operation), and so a whole run (`Linked.performAll`).
* **`Climbs`**, **`Seeks`**, **`Walks`**, **`Unfolds`** and **`Writes`** are the loops and recursions over
  a page without any bound on their steps. `Linked` gives each of them an end, which is the value of the
  bounded function: `Linked.climbs`, `Linked.walks` and `Linked.unfolds`, from which the others follow.
* **`Traversable`** puts together what holds of a page after such a run.
-/

namespace AmpTuner.Page

open Markup (Tree Element)

variable {page page' page'' : Page} {id x parent : NodeId}

/-! ## Operations -/

/-- A call that adds nodes to a page or moves them. -/
inductive Operation where
  | create (kind : NodeKind)
  | copy (id : NodeId)
  | insertTree (parent : NodeId) (tree : Tree)
  | detach (id : NodeId)
  | appendChild (parent child : NodeId)
  | prependChild (parent child : NodeId)
  | insertChildBefore (parent child : NodeId) (mark : Option NodeId)
  | insertChildAfter (parent child mark : NodeId)
  | replace (old new : NodeId)
  | moveChildren (source target : NodeId)
  | setTextContent (id : NodeId) (content : String)
  | appendCustomCss (css : String)

namespace Operation

/-- The page after an operation. -/
def perform (page : Page) : Operation → Page
  | create kind => (page.create kind).1
  | copy id => (page.copy id).1
  | insertTree parent tree => (page.insertTree parent tree).1
  | detach id => page.detach id
  | appendChild parent child => page.appendChild parent child
  | prependChild parent child => page.prependChild parent child
  | insertChildBefore parent child mark => page.insertChildBefore parent child mark
  | insertChildAfter parent child mark => page.insertChildAfter parent child mark
  | replace old new => page.replace old new
  | moveChildren source target => page.moveChildren source target
  | setTextContent id content => page.setTextContent id content
  | appendCustomCss css => page.appendCustomCss css

/-- The nodes that the operation reads or writes by name. A mark is only looked for. -/
def handles : Operation → List NodeId
  | create _ | appendCustomCss _ => []
  | copy id | insertTree id _ | detach id | setTextContent id _ => [id]
  | appendChild parent child | prependChild parent child | insertChildBefore parent child _
  | insertChildAfter parent child _ => [parent, child]
  | replace old new => [old, new]
  | moveChildren source target => [source, target]

/-- The moves of nodes that were there before, each as the new parent and the moved node. -/
def moves (page : Page) : Operation → List (NodeId × NodeId)
  | appendChild parent child | prependChild parent child | insertChildBefore parent child _
  | insertChildAfter parent child _ => [(parent, child)]
  | replace old new => (page.parent? old).toList.map (·, new)
  | moveChildren source target => (page.children source).map (target, ·)
  | create _ | copy _ | insertTree _ _ | detach _ | setTextContent _ _ | appendCustomCss _ => []

end Operation

/-- The nodes of the operation are there, and no move puts a node under itself or under one that is
below it. -/
structure Permitted (page : Page) (op : Operation) : Prop where
  has : ∀ id ∈ op.handles, page.Has id
  noLoop : ∀ move ∈ op.moves page, move.2 ≠ move.1 ∧ ¬ page.Above move.2 move.1

/-- The page after a run of operations. -/
def performAll (page : Page) (ops : List Operation) : Page := ops.foldl Operation.perform page

/-- Each operation is permitted on the page that the ones before it leave. -/
def PermittedAll (page : Page) : List Operation → Prop
  | [] => True
  | op :: rest => page.Permitted op ∧ (op.perform page).PermittedAll rest

/-! ## What one operation hands on -/

/-- `page'` has the nodes of `page` and perhaps more, all links agree, and the frame is the same. -/
structure Carries (page page' : Page) : Prop where
  frame : page.SameFrame page'
  linked : page'.Linked
  has : ∀ x, page.Has x → page'.Has x

/-- The old nodes kept their parents, too. -/
structure Sprouts (page page' : Page) : Prop extends page.Carries page' where
  parent? : ∀ x, page.Has x → page'.parent? x = page.parent? x

theorem Carries.trans (h : page.Carries page') (h' : page'.Carries page'') : page.Carries page'' where
  frame := h.frame.trans h'.frame
  linked := h'.linked
  has x hx := h'.has x (h.has x hx)

namespace Sprouts

/-- Nothing has sprouted. -/
theorem refl (h : page.Linked) : page.Sprouts page where
  frame := .refl _
  linked := h
  has _ hx := hx
  parent? _ _ := rfl

theorem trans (h : page.Sprouts page') (h' : page'.Sprouts page'') : page.Sprouts page'' where
  toCarries := h.toCarries.trans h'.toCarries
  parent? x hx := (h'.parent? x (h.has x hx)).trans (h.parent? x hx)

/-- No new node is above an old one. -/
theorem above_iff (h : page.Sprouts page') (hpage : page.Linked) {a : NodeId} (hx : page.Has x) :
    page'.Above a x ↔ page.Above a x :=
  hpage.above_congr (S := page.Has) (fun _ _ _ hp => hpage.has_parent hp) h.parent? hx

end Sprouts

namespace Linked

/-! ## Adding nodes -/

/-- A new node, without a parent yet. -/
theorem sprouts_create (h : page.Linked) (kind : NodeKind) : page.Sprouts (page.create kind).1 where
  frame := create_sameFrame kind
  linked := (create_sameLinks kind).linked h
  has _ hx := (has_create kind).mpr (.inl hx)
  parent? x _ := (create_sameLinks kind).parent? x

/-- A new node with a parent. -/
theorem sprouts_attachNew (h : page.Linked) (kind : NodeKind) {place : List NodeId → List NodeId}
    (hparent : page.Has parent) (hplace : IsPlacement page.next place) :
    page.Sprouts (page.attachNew kind parent place) where
  frame := attachNew_sameFrame
  linked := by
    have hcreated : page.SameLinks (page.create kind).1 := create_sameLinks kind
    rw [attachNew]
    -- nothing hangs from the new node, so that the link under the parent closes no loop
    refine (hcreated.linked h).attach ((has_create kind).mpr (.inl hparent))
      ((has_create kind).mpr (.inr rfl)) hplace (ne_next_of_has hparent).symm ?_
    rw [hcreated.above_iff]
    exact h.not_above_next
  has _ hx := has_attachNew.mpr (.inl hx)
  parent? x hx := by rw [parent?_attachNew, if_neg (ne_next_of_has hx)]

/-- A new element with its attributes. -/
theorem sprouts_createWith (h : page.Linked) (el : Element) : page.Sprouts (page.createWith el) := by
  rw [createWith, addAttributes_eq]
  have hcreated := h.sprouts_create (.element { tag := el.tag })
  refine hcreated.trans ⟨⟨mapElement_sameFrame _, (mapElement_sameLinks _).linked hcreated.linked, ?_⟩, ?_⟩
  · exact fun x hx => (has_mapElement _).mpr hx
  · exact fun x _ => (mapElement_sameLinks _).parent? x

theorem has_createWith (el : Element) : (page.createWith el).Has page.next := by
  rw [createWith, addAttributes_eq]
  exact (has_mapElement _).mpr ((has_create _).mpr (.inr rfl))

/-- A new element gets its place once its own children are in it. -/
theorem sprouts_insertElement (h : page.Linked) (el : Element) (hparent : page.Has parent)
    (hfilled : (page.createWith el).Sprouts page') :
    page.Sprouts (page'.appendChild parent page.next) := by
  have hall := (h.sprouts_createWith el).trans hfilled
  refine ⟨⟨hall.frame.trans attach_sameFrame, ?_, fun x hx => has_attach.mpr (hall.has x hx)⟩, fun x hx => ?_⟩
  · refine hall.linked.attach (hall.has _ hparent) (hfilled.has _ (has_createWith el))
      (isPlacement_append _) (ne_next_of_has hparent).symm ?_
    rw [hall.above_iff h hparent]
    exact h.not_above_next
  · rw [appendChild, parent?_attach_of_ne (ne_next_of_has hx)]
    exact hall.parent? x hx

mutual

/-- A whole tree. By induction on it. -/
theorem sprouts_insertTree (page : Page) (parent : NodeId) (h : page.Linked) (hparent : page.Has parent) :
    ∀ tree : Tree, page.Sprouts (page.insertTree parent tree).1
  | .text content => by
    simp only [insertTree_text]
    exact h.sprouts_attachNew _ hparent (isPlacement_append _)
  | .comment content => by
    simp only [insertTree_comment]
    exact h.sprouts_attachNew _ hparent (isPlacement_append _)
  | .element el children => by
    have hfilled := sprouts_insertForest (page.createWith el) page.next (h.sprouts_createWith el).linked
      (has_createWith el) children
    simp only [insertTree_element]
    exact h.sprouts_insertElement el hparent hfilled

/-- A forest. By induction on it. -/
theorem sprouts_insertForest (page : Page) (parent : NodeId) (h : page.Linked) (hparent : page.Has parent) :
    ∀ forest : List Tree, page.Sprouts (page.insertForest parent forest)
  | [] => by
    rw [insertForest]
    exact .refl h
  | tree :: rest => by
    have hfirst := sprouts_insertTree page parent h hparent tree
    rw [insertForest]
    exact hfirst.trans
      (sprouts_insertForest (page.insertTree parent tree).1 parent hfirst.linked (hfirst.has _ hparent) rest)

end

/-! ## Moving nodes -/

/-- A node may be attached anywhere but to itself and below itself. -/
theorem carries_attach (h : page.Linked) {child : NodeId} {place : List NodeId → List NodeId}
    (hparent : page.Has parent) (hchild : page.Has child) (hplace : IsPlacement child place)
    (hloop : child ≠ parent ∧ ¬ page.Above child parent) : page.Carries (page.attach parent child place) where
  frame := attach_sameFrame
  linked := h.attach hparent hchild hplace hloop.1 hloop.2
  has _ hx := has_attach.mpr hx

/-- A node may be replaced by any other that is not above it. -/
theorem carries_replace (h : page.Linked) {old new : NodeId} (hnew : page.Has new)
    (hloop : ∀ p, page.parent? old = some p → new ≠ p ∧ ¬ page.Above new p) :
    page.Carries (page.replace old new) where
  frame := replace_sameFrame
  linked := by
    cases hold : page.parent? old with
    | none =>
      rw [replace_of_parent?_eq_none hold]
      exact h
    | some p => exact h.replace hold hnew (hloop p hold).1 (hloop p hold).2
  has _ hx := has_replace.mpr hx

/-- Children that are moved behind those of their own parent stay where they are. -/
theorem moveChildren_self_sameLinks (h : page.Linked) (hid : page.Has id) :
    page.SameLinks (page.moveChildren id id) where
  parent? x := by
    rw [h.parent?_moveChildren]
    split
    · next hx => exact hx.symm
    · rfl
  children x := by
    rw [moveChildren_eq, children_foldl_adopt _ ((has_update _).mpr hid), children_update]
    split
    · next hx =>
      rw [hx]
      cases page.node? id <;> rfl
    · rfl

/-- Children may be moved anywhere but to themselves and below themselves. -/
theorem carries_moveChildren (h : page.Linked) {source target : NodeId} (htarget : page.Has target)
    (hloop : ∀ c ∈ page.children source, c ≠ target ∧ ¬ page.Above c target) :
    page.Carries (page.moveChildren source target) where
  frame := moveChildren_sameFrame
  linked := by
    by_cases hne : source = target
    · subst hne
      exact (h.moveChildren_self_sameLinks htarget).linked h
    · refine h.moveChildren htarget hne fun habove => ?_
      -- the way down from `source` to `target` begins with a child that is moved
      obtain ⟨c, hc, hdown⟩ := Relation.TransGen.head'_iff.mp habove
      obtain ⟨hct, hnot⟩ := hloop c ((h.mem_children_iff source c).mpr hc)
      rcases Relation.reflTransGen_iff_eq_or_transGen.mp hdown with heq | hbelow
      · exact hct heq.symm
      · exact hnot hbelow
  has _ hx := has_moveChildren.mpr hx

/-! ## Writing texts -/

theorem carries_detachAll (h : page.Linked) (ids : List NodeId) : page.Carries (page.detachAll ids) where
  frame := detachAll_sameFrame ids
  linked := h.detachAll ids
  has _ hx := (has_detachAll ids).mpr hx

/-- The content of any node may be replaced by a text. -/
theorem carries_setTextContent (h : page.Linked) (hid : page.Has id) (content : String) :
    page.Carries (page.setTextContent id content) := by
  have hemptied := h.carries_detachAll (page.children id)
  rw [setTextContent_eq]
  split
  · exact hemptied
  · refine hemptied.trans (hemptied.linked.sprouts_attachNew _ (hemptied.has id hid) ?_).toCarries
    rw [next_detachAll]
    exact isPlacement_append _

theorem has_customStyle (h : page.Linked) {style : NodeId} (hstyle : page.customStyle? = some style) :
    page.Has style :=
  has_of_parent? ((mem_customStyles_iff h).mp (mem_customStyles_of_customStyle? hstyle)).1

/-- Anything may be added to the custom style. -/
theorem carries_appendCustomCss (h : page.Linked) (hhead : page.Has page.head) (css : String) :
    page.Carries (page.appendCustomCss css) := by
  rw [appendCustomCss_eq]
  cases hstyle : page.customStyle? with
  | some style =>
    rw [withCustomStyle_of_some hstyle]
    exact h.carries_setTextContent (h.has_customStyle hstyle) _
  | none =>
    have hnew := h.sprouts_attachNew (.element customElement) hhead (isPlacement_append page.next)
    rw [withCustomStyle_of_none hstyle]
    exact hnew.toCarries.trans (hnew.linked.carries_setTextContent (has_attachNew.mpr (.inr rfl)) _)

/-! ## Runs -/

/-- Every permitted operation keeps the page linked and its nodes. -/
theorem perform (h : page.Linked) (hhead : page.Has page.head) {op : Operation} (hop : page.Permitted op) :
    page.Carries (op.perform page) := by
  obtain ⟨hhas, hloop⟩ := hop
  -- the moves of one child under one parent differ only in its place among the others
  have move (parent child : NodeId) (place : List NodeId → List NodeId) (hplace : IsPlacement child place)
      (hhandles : op.handles = [parent, child]) (hmoves : op.moves page = [(parent, child)]) :
      page.Carries (page.attach parent child place) := by
    simp only [hhandles, List.forall_mem_cons] at hhas
    simp only [hmoves, List.forall_mem_singleton] at hloop
    exact h.carries_attach hhas.1 hhas.2.1 hplace hloop
  cases op with
  | create kind => exact (h.sprouts_create kind).toCarries
  | copy id => exact (h.sprouts_create _).toCarries
  | insertTree parent tree =>
    have hparent : page.Has parent := hhas parent (by simp [Operation.handles])
    exact (sprouts_insertTree page parent h hparent tree).toCarries
  | detach id => exact h.carries_detachAll [id]
  | appendChild parent child => exact move parent child (· ++ [child]) (isPlacement_append child) rfl rfl
  | prependChild parent child => exact move parent child (child :: ·) (isPlacement_cons child) rfl rfl
  | insertChildBefore parent child mark =>
    cases mark with
    | none => exact move parent child (· ++ [child]) (isPlacement_append child) rfl rfl
    | some mark => exact move parent child (insertBefore child mark) (isPlacement_insertBefore child mark) rfl rfl
  | insertChildAfter parent child mark =>
    exact move parent child (insertAfter child mark) (isPlacement_insertAfter child mark) rfl rfl
  | replace old new =>
    have hnew : page.Has new := hhas new (by simp [Operation.handles])
    refine h.carries_replace hnew fun p hp => hloop (p, new) ?_
    simp [Operation.moves, hp]
  | moveChildren source target =>
    have htarget : page.Has target := hhas target (by simp [Operation.handles])
    refine h.carries_moveChildren htarget fun c hc => hloop (target, c) ?_
    simpa [Operation.moves] using hc
  | setTextContent id content =>
    have hid : page.Has id := hhas id (by simp [Operation.handles])
    exact h.carries_setTextContent hid content
  | appendCustomCss css => exact h.carries_appendCustomCss hhead css

/-- Every permitted run keeps the page linked and its nodes. By induction on the operations. -/
theorem performAll (h : page.Linked) (hhead : page.Has page.head) {ops : List Operation}
    (hops : page.PermittedAll ops) : page.Carries (page.performAll ops) := by
  induction ops generalizing page with
  | nil => exact (Sprouts.refl h).toCarries
  | cons op rest ih =>
    obtain ⟨hop, hrest⟩ := hops
    have hstep := h.perform hhead hop
    exact hstep.trans (ih hstep.linked (by rw [hstep.frame.head]; exact hstep.has _ hhead) hrest)

end Linked

/-! ## Checking a run -/

/-- Tells whether the operation is permitted, from the way up of each new parent. -/
def permits (page : Page) (op : Operation) : Bool :=
  op.handles.all (fun id => id.index < page.nodes.size)
    && (op.moves page).all fun move => move.2 != move.1 && !(page.ancestors move.1).contains move.2

/-- The test of a run: each operation on the page that it meets. -/
def permitsAll (page : Page) : List Operation → Bool
  | [] => true
  | op :: rest => page.permits op && (op.perform page).permitsAll rest

namespace Linked

/-- On a linked page the test of an operation is exact. -/
theorem permits_iff (h : page.Linked) {op : Operation} : page.permits op = true ↔ page.Permitted op := by
  have hloop (move : NodeId × NodeId) : (move.2 != move.1 && !(page.ancestors move.1).contains move.2) = true
      ↔ move.2 ≠ move.1 ∧ ¬ page.Above move.2 move.1 := by
    rw [Bool.and_eq_true, bne_iff_ne, Bool.not_eq_true', ← Bool.not_eq_true, List.contains_iff_mem,
      h.mem_ancestors_iff]
  simp only [permits, Bool.and_eq_true, List.all_eq_true, hloop, decide_eq_true_eq]
  exact ⟨fun ⟨hhas, hmoves⟩ => ⟨hhas, hmoves⟩, fun ⟨hhas, hmoves⟩ => ⟨hhas, hmoves⟩⟩

/-- On a linked page the test of a run is exact. -/
theorem permitsAll_iff (h : page.Linked) (hhead : page.Has page.head) {ops : List Operation} :
    page.permitsAll ops = true ↔ page.PermittedAll ops := by
  induction ops generalizing page with
  | nil => exact iff_of_true rfl trivial
  | cons op rest ih =>
    rw [permitsAll, Bool.and_eq_true, h.permits_iff, PermittedAll]
    -- what comes next is checked on a page whose links agree, as the operation is permitted
    refine and_congr_right fun hop => ?_
    have hstep := h.perform hhead hop
    exact ih hstep.linked (by rw [hstep.frame.head]; exact hstep.has _ hhead)

end Linked

/-! ## Loops and recursions without bounds -/

/-- The way up: the parents that are passed, up to a node without a parent. -/
inductive Climbs (page : Page) : NodeId → List NodeId → Prop
  | top {id : NodeId} (hid : page.parent? id = none) : page.Climbs id []
  | up {id p : NodeId} {passed : List NodeId} (hp : page.parent? id = some p) (hrest : page.Climbs p passed) :
      page.Climbs id (p :: passed)

/-- The search upwards: it stops at the first node that passes the test, or above the last one. -/
inductive Seeks (page : Page) (test : NodeId → Bool) : Option NodeId → Bool → Prop
  | lost : page.Seeks test none false
  | found {id : NodeId} (hid : test id = true) : page.Seeks test (some id) true
  | up {id : NodeId} {answer : Bool} (hid : test id = false) (hrest : page.Seeks test (page.parent? id) answer) :
      page.Seeks test (some id) answer

/-- The walk downwards over a stack: a node is listed and its children take its place. -/
inductive Walks (page : Page) : List NodeId → List NodeId → Prop
  | done : page.Walks [] []
  | step {id : NodeId} {stack listed : List NodeId} (hrest : page.Walks (page.children id ++ stack) listed) :
      page.Walks (id :: stack) (id :: listed)

/-- The recursion that turns nodes into trees, from one node to the next. -/
inductive Unfolds (page : Page) : List NodeId → List Tree → Prop
  | done : page.Unfolds [] []
  | text {id : NodeId} {rest : List NodeId} {trees : List Tree} {content : String}
      (hid : page.kind? id = some (.text content)) (hrest : page.Unfolds rest trees) :
      page.Unfolds (id :: rest) (.text content :: trees)
  | comment {id : NodeId} {rest : List NodeId} {trees : List Tree} {content : String}
      (hid : page.kind? id = some (.comment content)) (hrest : page.Unfolds rest trees) :
      page.Unfolds (id :: rest) (.comment content :: trees)
  | element {id : NodeId} {rest : List NodeId} {trees children : List Tree} {el : Element}
      (hid : page.kind? id = some (.element el)) (hchildren : page.Unfolds (page.children id) children)
      (hrest : page.Unfolds rest trees) : page.Unfolds (id :: rest) (.element el children :: trees)

/-- The recursion that writes nodes one behind the other; `raw` tells whether their parent holds raw
text. -/
inductive Writes (page : Page) : Bool → List NodeId → String → Prop
  | done {raw : Bool} : page.Writes raw [] ""
  | text {raw : Bool} {id : NodeId} {rest : List NodeId} {written content : String}
      (hid : page.kind? id = some (.text content)) (hrest : page.Writes raw rest written) :
      page.Writes raw (id :: rest) ((if raw then content else Markup.escapeText content) ++ written)
  | comment {raw : Bool} {id : NodeId} {rest : List NodeId} {written content : String}
      (hid : page.kind? id = some (.comment content)) (hrest : page.Writes raw rest written) :
      page.Writes raw (id :: rest) ("<!--" ++ content ++ "-->" ++ written)
  | void {raw : Bool} {id : NodeId} {rest : List NodeId} {written : String} {el : Element}
      (hid : page.kind? id = some (.element el)) (hvoid : Markup.isVoid el.tag = true)
      (hrest : page.Writes raw rest written) : page.Writes raw (id :: rest) (el.startTag ++ written)
  | element {raw : Bool} {id : NodeId} {rest : List NodeId} {written inner : String} {el : Element}
      (hid : page.kind? id = some (.element el)) (hvoid : Markup.isVoid el.tag = false)
      (hchildren : page.Writes (Markup.isRawText el.tag) (page.children id) inner)
      (hrest : page.Writes raw rest written) :
      page.Writes raw (id :: rest) (el.startTag ++ inner ++ el.endTag ++ written)

/-- A search tests the nodes of the way up one after the other. -/
theorem Climbs.seeks {test : NodeId → Bool} {passed : List NodeId} (h : page.Climbs id passed) :
    page.Seeks test (page.parent? id) (passed.any test) := by
  induction h with
  | top hid => rw [hid]; exact .lost
  | @up id p passed hp _ ih =>
    rw [hp, List.any_cons]
    cases htest : test p with
    | true => exact .found htest
    | false => exact .up htest ih

/-- What can be made into trees can be written. -/
theorem Unfolds.writes {ids : List NodeId} {trees : List Tree} (h : page.Unfolds ids trees) (raw : Bool) :
    page.Writes raw ids (Tree.writeAll raw trees) := by
  induction h generalizing raw with
  | done => exact .done
  | text hid _ ih => exact .text hid (ih raw)
  | comment hid _ ih => exact .comment hid (ih raw)
  | @element id rest trees children el hid _ _ ihChildren ih =>
    rw [Tree.writeAll, Tree.write]
    cases hvoid : Markup.isVoid el.tag with
    | true => exact .void hid hvoid (ih raw)
    | false => exact .element hid hvoid (ihChildren _) (ih raw)

namespace Linked

/-- The climb to the root ends, at the ancestors. -/
theorem climbs (h : page.Linked) (id : NodeId) : page.Climbs id (page.ancestors id) := by
  induction id using h.up_induction with
  | step id ih =>
    cases hp : page.parent? id with
    | none =>
      rw [ancestors, climb_of_parent?_eq_none hp]
      exact .top hp
    | some p =>
      rw [h.ancestors_of_parent? hp]
      exact .up hp (ih p hp)

/-- Nodes on the stack are listed with what is below them before the rest of the stack. -/
theorem walks_append {ids stack listed : List NodeId}
    (hids : ∀ c ∈ ids, ∀ stack listed, page.Walks stack listed →
      page.Walks (page.children c ++ stack) (page.preorder c ++ listed))
    (hstack : page.Walks stack listed) :
    page.Walks (ids ++ stack) ((ids.flatMap fun c => c :: page.preorder c) ++ listed) := by
  induction ids with
  | nil => exact hstack
  | cons c ids ih =>
    obtain ⟨hc, hids⟩ := List.forall_mem_cons.mp hids
    simp only [List.flatMap_cons, List.cons_append, List.append_assoc]
    exact .step (hc _ _ (ih hids))

/-- The walk goes through everything below a node before it goes on. -/
theorem walks_children (h : page.Linked) (id : NodeId) : ∀ stack listed, page.Walks stack listed →
    page.Walks (page.children id ++ stack) (page.preorder id ++ listed) := by
  induction id using h.down_induction with
  | step id ih =>
    intro stack listed hstack
    rw [h.preorder_eq]
    exact walks_append (fun c hc => ih c ((h.mem_children_iff id c).mp hc)) hstack

/-- The walk ends, at the descendants. -/
theorem walks (h : page.Linked) (id : NodeId) : page.Walks (page.children id) (page.descendants id) := by
  have hwalks := h.walks_children id [] [] .done
  rw [List.append_nil, List.append_nil] at hwalks
  rw [h.descendants_eq_preorder]
  exact hwalks

/-- A node unfolds to its tree, and the rest to the others. -/
theorem unfolds_cons (h : page.Linked) {rest : List NodeId} {trees : List Tree} (hid : page.Has id)
    (hchildren : page.Unfolds (page.children id) ((page.children id).map page.treeOf))
    (hrest : page.Unfolds rest trees) : page.Unfolds (id :: rest) (page.treeOf id :: trees) := by
  cases hkind : page.kind? id with
  | none => exact absurd hid ((page.kind?_eq_none_iff id).mp hkind)
  | some kind =>
    cases kind with
    | text content =>
      rw [h.treeOf_text hkind]
      exact .text hkind hrest
    | comment content =>
      rw [h.treeOf_comment hkind]
      exact .comment hkind hrest
    | element el =>
      rw [h.treeOf_element hkind]
      exact .element hkind hchildren hrest

/-- Nodes whose children unfold do so themselves. -/
theorem unfolds_map (h : page.Linked) {ids : List NodeId} (hids : ∀ id ∈ ids, page.Has id)
    (hchildren : ∀ id ∈ ids, page.Unfolds (page.children id) ((page.children id).map page.treeOf)) :
    page.Unfolds ids (ids.map page.treeOf) := by
  induction ids with
  | nil => exact .done
  | cons id rest ih =>
    obtain ⟨hid, hids⟩ := List.forall_mem_cons.mp hids
    obtain ⟨hbelow, hchildren⟩ := List.forall_mem_cons.mp hchildren
    rw [List.map_cons]
    exact h.unfolds_cons hid hbelow (ih hids hchildren)

/-- The children of every node unfold to their trees. By induction from the leaves. -/
theorem unfolds_children (h : page.Linked) (id : NodeId) :
    page.Unfolds (page.children id) ((page.children id).map page.treeOf) := by
  induction id using h.down_induction with
  | step id ih =>
    exact h.unfolds_map (fun c hc => h.has_child hc) fun c hc => ih c ((h.mem_children_iff id c).mp hc)

theorem unfolds (h : page.Linked) (hid : page.Has id) : page.Unfolds [id] [page.treeOf id] :=
  h.unfolds_cons hid (h.unfolds_children id) .done

theorem isAttached_iff (h : page.Linked) :
    page.isAttached id = true ↔ id = page.root ∨ page.Above page.root id := by
  rw [isAttached, Bool.or_eq_true, beq_iff_eq, List.contains_iff_mem, h.mem_ancestors_iff]

end Linked

/-! ## After a run -/

/-- Both links of every node agree, every loop and recursion over the page ends with the value of its
bounded counterpart, and what is listed below a node is what has it above. -/
structure Traversable (page : Page) : Prop where
  mem_children_iff : ∀ p c, c ∈ page.children p ↔ page.parent? c = some p
  nodup : ∀ p, (page.children p).Nodup
  climbs : ∀ id, page.Climbs id (page.ancestors id)
  descendants : ∀ id, page.Walks (page.children id) (page.descendants id)
  hasAncestor : ∀ id tag, page.Seeks (page.isTag · tag) (page.parent? id) (page.hasAncestor id tag)
  isAttached : ∀ id, page.Seeks (· == page.root) (some id) (page.isAttached id)
  treeOf : ∀ id, page.Has id → page.Unfolds [id] [page.treeOf id]
  toHtml : ∃ written, page.Writes false [page.root] written ∧
    page.toHtml = Markup.doctypeHtml page.doctype ++ written
  mem_descendants_iff : ∀ id x, x ∈ page.descendants id ↔ page.Above id x
  hasAncestor_iff : ∀ id tag, page.hasAncestor id tag = true ↔ ∃ a, page.Above a id ∧ page.isTag a tag = true
  isAttached_iff : ∀ id, page.isAttached id = true ↔ id = page.root ∨ page.Above page.root id

/-- On a linked page every loop and every recursion ends. -/
theorem Linked.traversable (h : page.Linked) (hroot : page.Has page.root) : page.Traversable where
  mem_children_iff := h.mem_children_iff
  nodup := h.nodup
  climbs := h.climbs
  descendants := h.walks
  hasAncestor id tag := (h.climbs id).seeks
  isAttached id := by
    rw [isAttached, ← List.any_beq']
    cases hid : id == page.root with
    | true => exact .found hid
    | false => exact .up hid (h.climbs id).seeks
  treeOf id := h.unfolds
  toHtml := ⟨Tree.writeAll false [page.treeOf page.root], (h.unfolds hroot).writes false, rfl⟩
  mem_descendants_iff id x := h.mem_descendants_iff
  hasAncestor_iff id tag := h.hasAncestor_iff
  isAttached_iff id := h.isAttached_iff

/-- A page that nothing was done to yet: a new one or one that was loaded. -/
inductive Fresh : Page → Prop
  | new (doctype : Option String) : Fresh (empty doctype)
  | loaded (d : Markup.Document) : Fresh (ofDocument d)

theorem Fresh.wellFormed (h : Fresh page) : page.WellFormed := by
  cases h with
  | new doctype => exact wellFormed_empty doctype
  | loaded d => exact ofDocument_wellFormed d

/-- Whatever is done to a new or a loaded page by permitted operations, it can be traversed. -/
theorem traversable_performAll (hstart : Fresh page) {ops : List Operation} (hops : page.PermittedAll ops) :
    (page.performAll ops).Traversable := by
  have hwell := hstart.wellFormed
  have hrun := hwell.linked.performAll hwell.has_head hops
  refine hrun.linked.traversable ?_
  rw [hrun.frame.root]
  exact hrun.has _ hwell.has_root

/-- Children that change places, one that is replaced by its neighbour, a node that is its own mark,
children moved to the parent they have, and a tree, texts and rules put in between. -/
theorem traversable_performAll_loaded :
    let page := ofDocument
      { nodes := [.element { tag := "ul" } [.element { tag := "li" } [], .text "a", .comment "b"]] }
    let ops : List Operation :=
      [.insertTree ⟨3⟩ (.element { tag := "li" } [.text "c"]), .insertChildBefore ⟨3⟩ ⟨4⟩ (some ⟨4⟩),
        .insertChildAfter ⟨3⟩ ⟨5⟩ ⟨4⟩, .replace ⟨5⟩ ⟨6⟩, .moveChildren ⟨3⟩ ⟨3⟩, .appendChild ⟨7⟩ ⟨4⟩,
        .appendCustomCss "a", .setTextContent ⟨7⟩ "d", .copy ⟨7⟩, .prependChild ⟨2⟩ ⟨5⟩, .detach ⟨3⟩,
        .moveChildren ⟨3⟩ ⟨2⟩]
    page.PermittedAll ops ∧ (page.performAll ops).Traversable := by
  intro page ops
  have hops : page.PermittedAll ops :=
    ((ofDocument_wellFormed _).linked.permitsAll_iff (ofDocument_wellFormed _).has_head).mp (by decide +kernel)
  exact ⟨hops, traversable_performAll (.loaded _) hops⟩

end AmpTuner.Page
