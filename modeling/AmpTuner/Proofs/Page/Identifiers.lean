import AmpTuner.Proofs.Page.Operations

/-!
# Generated identifiers

An element without an identifier is given one that nothing in the store carries, and keeps it. The search for it
is a loop without a visible end, that tries one number after the other.

## The architecture

* **`Tries`** is that loop. It ends since more numbers would be needed to go on than there are nodes to carry them
  (**`tries_freshFrom`**), with the value of the bounded search.
* **`Edit`** is what else may be done to a page, **`SparesIds`** what it leaves alone as long as no identifier is
  written by it.
* **`Advances`** is what a run leaves behind, with the numbers that it took: they grow, were free and stay in use.
* **`identifiers_session`** puts both together for any calls with any edits in between.
-/

namespace AmpTuner

open Markup (Tree Element Attribute)

/-- No element of the tree has an identifier. -/
inductive Markup.Tree.Anonymous : Tree → Prop
  | text (content : String) : (Tree.text content).Anonymous
  | comment (content : String) : (Tree.comment content).Anonymous
  | element {el : Element} {children : List Tree} (hel : "id" ∉ Attribute.names el.attributes)
      (hchildren : ∀ tree ∈ children, tree.Anonymous) : (Tree.element el children).Anonymous

/-- Attributes of other names are added. -/
theorem Markup.Element.attribute?_addMissing_of_not_mem {el : Element} {given : List Attribute} {name : String}
    (h : name ∉ Attribute.names given) : (el.addMissing given).attribute? name = el.attribute? name := by
  rw [Element.addMissing]
  induction given generalizing el with
  | nil => rfl
  | cons a given ih =>
    obtain ⟨ha, hgiven⟩ : name ≠ a.name ∧ name ∉ Attribute.names given := by
      simpa [Attribute.names_cons] using h
    rw [List.foldl_cons, ih hgiven]
    split
    · rfl
    · exact Element.attribute?_set_of_ne ha

namespace Page

open Markup.Element (attribute?_addMissing_of_not_mem)

variable {page page' page'' : Page} {id x : NodeId} {v : String} {n m : Nat}

/-! ## The search -/

/-- Different numbers give different identifiers. -/
theorem generatedId_injective : Function.Injective generatedId := by
  intro n m h
  have hchars := congrArg String.toList h
  simp only [generatedId, String.toList_append] at hchars
  have hdigits := congrArg (Nat.ofDigitChars 10 · 0) (List.append_cancel_left hchars)
  simpa [Nat.toString_eq_ofList_toDigits] using hdigits

theorem generatedId_ne_empty (n : Nat) : generatedId n ≠ "" := by
  intro h
  have hchars := congrArg String.toList h
  simp [generatedId] at hchars

/-- An identifier is in use if some node bears it. -/
theorem usesId_iff : page.usesId v = true ↔ ∃ x, page.attribute? x "id" = some v := by
  rw [usesId, Array.any_eq_true]
  constructor
  · rintro ⟨i, hi, hv⟩
    refine ⟨⟨i⟩, ?_⟩
    rw [attribute?, element?, kind?, node?, Array.getElem?_eq_getElem hi]
    exact eq_of_beq hv
  · rintro ⟨x, hv⟩
    obtain ⟨el, hel, -⟩ := Option.bind_eq_some_iff.mp hv
    have hx : x.index < page.nodes.size := has_of_element? hel
    refine ⟨x.index, hx, ?_⟩
    rw [attribute?, element?, kind?, node?, Array.getElem?_eq_getElem hx] at hv
    exact beq_iff_eq.mpr hv

/-- The loop without a bound: from `n` on one number after the other is tried, until the identifier of `m` is
free. -/
inductive Tries (page : Page) : Nat → List Nat → Nat → Prop
  | free {n : Nat} (hfree : page.usesId (generatedId n) = false) : page.Tries n [n] n
  | taken {n m : Nat} {tried : List Nat} (htaken : page.usesId (generatedId n) = true)
      (hrest : page.Tries (n + 1) tried m) : page.Tries n (n :: tried) m

/-- The search ends at a number that is free. -/
theorem Tries.free_last {tried : List Nat} (h : page.Tries n tried m) :
    n ≤ m ∧ page.usesId (generatedId m) = false := by
  induction h with
  | free hfree => exact ⟨Nat.le_refl _, hfree⟩
  | taken _ _ ih => exact ⟨by omega, ih.2⟩

/-- Different numbers take different nodes. -/
theorem length_le_size {numbers : List Nat} (hnodup : numbers.Nodup)
    (htaken : ∀ n ∈ numbers, page.usesId (generatedId n) = true) : numbers.length ≤ page.nodes.size := by
  let carried : List String := page.nodes.toList.filterMap fun node => node.kind.element?.bind (·.attribute? "id")
  have hsubset : numbers.map generatedId ⊆ carried := by
    intro v hv
    obtain ⟨n, hn, rfl⟩ := List.mem_map.mp hv
    obtain ⟨node, hnode, hid⟩ := Array.any_eq_true'.mp (htaken n hn)
    exact List.mem_filterMap.mpr ⟨node, Array.mem_toList_iff.mpr hnode, eq_of_beq hid⟩
  calc
    numbers.length = (numbers.map generatedId).length := (List.length_map _).symm
    _ ≤ carried.length := ((hnodup.map generatedId_injective).subperm hsubset).length_le
    _ ≤ page.nodes.toList.length := List.length_filterMap_le ..
    _ = page.nodes.size := Array.length_toList

/-- The numbers below `start` that were passed each hold a node, so that `tries` more are enough. -/
theorem exists_tries (tries : Nat) {start : Nat} {passed : List Nat} (hnodup : passed.Nodup)
    (hbelow : ∀ n ∈ passed, n < start) (htaken : ∀ n ∈ passed, page.usesId (generatedId n) = true)
    (hlength : passed.length + tries = page.nodes.size) :
    ∃ tried, page.Tries start tried (page.freshFrom start tries) ∧ tried.length ≤ tries + 1 := by
  induction tries generalizing start passed with
  | zero =>
    refine ⟨[start], .free (Bool.eq_false_iff.mpr fun hstart => ?_), by simp⟩
    -- one number more than nodes
    have hmore := page.length_le_size
      (List.nodup_cons.mpr ⟨fun hmem => Nat.lt_irrefl _ (hbelow start hmem), hnodup⟩)
      (List.forall_mem_cons.mpr ⟨hstart, htaken⟩)
    rw [List.length_cons] at hmore
    omega
  | succ tries ih =>
    rw [freshFrom]
    split
    · next hstart =>
      obtain ⟨tried, htries, htried⟩ := @ih (start + 1) (start :: passed)
        (List.nodup_cons.mpr ⟨fun hmem => Nat.lt_irrefl _ (hbelow start hmem), hnodup⟩)
        (List.forall_mem_cons.mpr ⟨Nat.lt_succ_self _, fun n hn => Nat.lt_succ_of_lt (hbelow n hn)⟩)
        (List.forall_mem_cons.mpr ⟨hstart, htaken⟩) (by rw [List.length_cons]; omega)
      exact ⟨start :: tried, .taken hstart htries, by rw [List.length_cons]; omega⟩
    · next hstart => exact ⟨[start], .free (Bool.eq_false_iff.mpr hstart), by simp⟩

theorem tries_freshFrom (page : Page) :
    ∃ tried, page.Tries page.nextGenerated tried (page.freshFrom page.nextGenerated page.nodes.size)
      ∧ tried.length ≤ page.nodes.size + 1 :=
  exists_tries page.nodes.size List.nodup_nil (by simp) (by simp) (by simp)

/-! ## Edits -/

/-- What else may be done to a page: its nodes are made, moved and written. -/
inductive Edit where
  | operation (op : Operation)
  | rewrite (id : NodeId) (f : Element → Element)
  | setContent (id : NodeId) (content : String)
  | setDoctype (doctype : Option String)
  | setBudget (budget : Css.Budget)

/-- The page after an edit. -/
def Edit.perform (page : Page) : Edit → Page
  | operation op => op.perform page
  | rewrite id f => page.mapElement id f
  | setContent id content => page.setContent id content
  | setDoctype doctype => { page with doctype }
  | setBudget budget => { page with budget }

/-- Nothing that the edit makes has an identifier, other than a copy, and it writes none. -/
def Edit.Idless : Edit → Prop
  | operation (.create kind) => ∀ el ∈ kind.element?, el.attribute? "id" = none
  | operation (.insertTree _ tree) => tree.Anonymous
  | rewrite _ f => ∀ el, (f el).attribute? "id" = el.attribute? "id"
  | _ => True

/-- The old nodes have the identifiers that they had, and the new ones none that was not there. -/
structure SparesIds (page page' : Page) : Prop where
  nextGenerated : page'.nextGenerated = page.nextGenerated
  has : ∀ x, page.Has x → page'.Has x
  kept : ∀ x, page.Has x → page'.attribute? x "id" = page.attribute? x "id"
  copied : ∀ x v, ¬ page.Has x → page'.attribute? x "id" = some v → ∃ y, page.attribute? y "id" = some v

theorem attribute?_congr (h : page'.kind? x = page.kind? x) (name : String) :
    page'.attribute? x name = page.attribute? x name := by
  rw [attribute?, attribute?, element?_congr h]

namespace SparesIds

theorem refl (page : Page) : page.SparesIds page :=
  ⟨rfl, fun _ hx => hx, fun _ _ => rfl, fun x _ _ hv => ⟨x, hv⟩⟩

/-- Two changes that spare the identifiers, one after the other. -/
theorem trans (h : page.SparesIds page') (h' : page'.SparesIds page'') : page.SparesIds page'' where
  nextGenerated := h'.nextGenerated.trans h.nextGenerated
  has x hx := h'.has x (h.has x hx)
  kept x hx := (h'.kept x (h.has x hx)).trans (h.kept x hx)
  copied x v hx hv := by
    have hold : ∃ y, page'.attribute? y "id" = some v := by
      by_cases hx' : page'.Has x
      · exact ⟨x, by rw [← h'.kept x hx', hv]⟩
      · exact h'.copied x v hx' hv
    obtain ⟨y, hy⟩ := hold
    by_cases hhas : page.Has y
    · exact ⟨y, by rw [← h.kept y hhas, hy]⟩
    · exact h.copied y v hhas hy

/-- Moves change no node. -/
theorem of_kinds (hframe : page.SameFrame page') (hkinds : ∀ x, page'.kind? x = page.kind? x) :
    page.SparesIds page' where
  nextGenerated := by rw [hframe.eq]
  has x := (has_congr (hkinds x)).mpr
  kept x _ := attribute?_congr (hkinds x) "id"
  copied x v _ hv := ⟨x, by rw [← attribute?_congr (hkinds x), hv]⟩

theorem attach {parent child : NodeId} {place : List NodeId → List NodeId} :
    page.SparesIds (page.attach parent child place) :=
  .of_kinds attach_sameFrame fun _ => kind?_attach

theorem appendChild {parent child : NodeId} : page.SparesIds (page.appendChild parent child) := by
  rw [Page.appendChild]
  exact attach

theorem prependChild {parent child : NodeId} : page.SparesIds (page.prependChild parent child) := by
  rw [Page.prependChild]
  exact attach

theorem insertChildBefore {parent child : NodeId} {mark : Option NodeId} :
    page.SparesIds (page.insertChildBefore parent child mark) := by
  cases mark with
  | none => exact appendChild
  | some mark => rw [Page.insertChildBefore]; exact attach

theorem insertChildAfter {parent child mark : NodeId} :
    page.SparesIds (page.insertChildAfter parent child mark) := by
  rw [Page.insertChildAfter]
  exact attach

/-- A new node that bears only identifiers that are there already spares them. -/
theorem create {kind : NodeKind}
    (hkind : ∀ el ∈ kind.element?, ∀ v, el.attribute? "id" = some v → ∃ y, page.attribute? y "id" = some v) :
    page.SparesIds (page.create kind).1 where
  nextGenerated := rfl
  has x hx := (has_create kind).mpr (.inl hx)
  kept x hx := attribute?_congr (kind?_create_of_has kind hx) "id"
  copied x v hx hv := by
    rw [attribute?, element?, kind?_create] at hv
    split at hv
    · obtain ⟨el, hel, hid⟩ := Option.bind_eq_some_iff.mp hv
      exact hkind el hel v hid
    · exact ⟨x, hv⟩

theorem createIdless {kind : NodeKind} (hkind : ∀ el ∈ kind.element?, el.attribute? "id" = none) :
    page.SparesIds (page.create kind).1 :=
  create fun el hel v hv => absurd ((hkind el hel).symm.trans hv) (by simp)

/-- A copy has the identifier of the node that was copied. -/
theorem copy : page.SparesIds (page.copy id).1 := by
  refine create fun el hel v hv => ⟨id, ?_⟩
  rw [attribute?, element?]
  cases hkind : page.kind? id with
  | none =>
    rw [hkind] at hel
    cases hel
  | some kind =>
    rw [hkind] at hel
    exact Option.bind_eq_some_iff.mpr ⟨el, hel, hv⟩

/-- A change to an element that leaves its identifier spares all. -/
theorem mapElement {f : Element → Element} (hf : ∀ el, (f el).attribute? "id" = el.attribute? "id") :
    page.SparesIds (page.mapElement id f) := by
  have hall (x : NodeId) : (page.mapElement id f).attribute? x "id" = page.attribute? x "id" := by
    rw [attribute?, element?_mapElement, attribute?]
    split
    · cases page.element? x with
      | none => rfl
      | some el => exact hf el
    · rfl
  exact ⟨rfl, fun x hx => (has_mapElement f).mpr hx, fun x _ => hall x, fun x v _ hv => ⟨x, by rw [← hall, hv]⟩⟩

theorem setContent (content : String) : page.SparesIds (page.setContent id content) := by
  have hall (x : NodeId) : (page.setContent id content).attribute? x "id" = page.attribute? x "id" := by
    rw [attribute?, element?_setContent, attribute?]
  exact ⟨rfl, fun x hx => (has_update _).mpr hx, fun x _ => hall x, fun x v _ hv => ⟨x, by rw [← hall, hv]⟩⟩

theorem attachNew {kind : NodeKind} {parent : NodeId} {place : List NodeId → List NodeId}
    (hkind : ∀ el ∈ kind.element?, el.attribute? "id" = none) :
    page.SparesIds (page.attachNew kind parent place) :=
  (createIdless hkind).trans attach

theorem attachText {content : String} {parent : NodeId} {place : List NodeId → List NodeId} :
    page.SparesIds (page.attachNew (.text content) parent place) :=
  attachNew fun _ hel => by cases hel

/-- Replacing the content of an element by a text spares the identifiers. -/
theorem setTextContent (content : String) : page.SparesIds (page.setTextContent id content) := by
  have hemptied : page.SparesIds (page.detachAll (page.children id)) :=
    .of_kinds (detachAll_sameFrame _) fun _ => kind?_detachAll _
  rw [setTextContent_eq]
  split
  · exact hemptied
  · exact hemptied.trans attachText

theorem attribute?_customElement : customElement.attribute? "id" = none := by decide

/-- Adding to the custom style spares the identifiers. -/
theorem appendCustomCss (css : String) : page.SparesIds (page.appendCustomCss css) := by
  rw [appendCustomCss_eq]
  refine SparesIds.trans ?_ (setTextContent _)
  have hnew : page.SparesIds page.withNewStyle := by
    rw [withNewStyle]
    refine attachNew fun el hel => ?_
    obtain rfl := Option.some.inj hel
    exact attribute?_customElement
  cases h : page.customStyle? with
  | none => rw [withCustomStyle_of_none h]; exact hnew
  | some style => rw [withCustomStyle_of_some h]; exact .refl page

/-- A new element is made without an identifier if its attributes have none. -/
theorem createWith {el : Element} (hel : "id" ∉ Attribute.names el.attributes) :
    page.SparesIds (page.createWith el) := by
  have hcreated : page.SparesIds (page.create (.element { tag := el.tag })).1 :=
    createIdless fun el hel => by
      obtain rfl := Option.some.inj hel
      rfl
  rw [Page.createWith, addAttributes_eq]
  exact hcreated.trans (.mapElement fun _ => attribute?_addMissing_of_not_mem hel)

mutual

/-- A tree without identifiers may be inserted. By induction on the tree. -/
theorem insertTree (page : Page) (parent : NodeId) :
    ∀ tree : Tree, tree.Anonymous → page.SparesIds (page.insertTree parent tree).1
  | .text content, _ => by
    simp only [insertTree_text]
    exact attachText
  | .comment content, _ => by
    simp only [insertTree_comment]
    exact attachNew fun _ hel => by cases hel
  | .element el children, .element hel hchildren => by
    have hfilled := insertForest (page.createWith el) page.next children hchildren
    simp only [insertTree_element]
    exact ((createWith hel).trans hfilled).trans attach

/-- A forest without identifiers may be inserted. -/
theorem insertForest (page : Page) (parent : NodeId) :
    ∀ forest : List Tree, (∀ tree ∈ forest, tree.Anonymous) → page.SparesIds (page.insertForest parent forest)
  | [], _ => by
    rw [Page.insertForest]
    exact .refl page
  | tree :: rest, hforest => by
    obtain ⟨htree, hrest⟩ := List.forall_mem_cons.mp hforest
    rw [Page.insertForest]
    exact (insertTree page parent tree htree).trans
      (insertForest (page.insertTree parent tree).1 parent rest hrest)

end

end SparesIds

/-- Every edit that brings in no identifier spares those that are there. -/
theorem Edit.sparesIds {e : Edit} (h : e.Idless) : page.SparesIds (e.perform page) := by
  have hframe (page' : Page) (hnodes : page'.nodes = page.nodes) (hn : page'.nextGenerated = page.nextGenerated) :
      page.SparesIds page' := by
    have hkind (x : NodeId) : page'.kind? x = page.kind? x := by rw [kind?, node?, hnodes, kind?, node?]
    exact ⟨hn, fun x hx => by rwa [Has, hnodes], fun x _ => attribute?_congr (hkind x) "id",
      fun x v _ hv => ⟨x, by rw [← attribute?_congr (hkind x), hv]⟩⟩
  cases e with
  | rewrite id f => exact .mapElement h
  | setContent id content => exact .setContent content
  | setDoctype doctype => exact hframe _ rfl rfl
  | setBudget budget => exact hframe _ rfl rfl
  | operation op =>
    cases op with
    | create kind => exact .createIdless h
    | copy id => exact .copy
    | insertTree parent tree => exact .insertTree page parent tree h
    | detach id => exact .of_kinds detach_sameFrame fun _ => kind?_detach
    | appendChild parent child => exact .appendChild
    | prependChild parent child => exact .prependChild
    | insertChildBefore parent child mark => exact .insertChildBefore
    | insertChildAfter parent child mark => exact .insertChildAfter
    | replace old new => exact .of_kinds replace_sameFrame fun _ => kind?_replace
    | moveChildren source target => exact .of_kinds moveChildren_sameFrame fun _ => kind?_moveChildren
    | setTextContent id content => exact .setTextContent content
    | appendCustomCss css => exact .appendCustomCss css

/-! ## Calls -/

/-- The node has no identifier, or an empty one. -/
def LacksId (page : Page) (id : NodeId) : Prop := ∀ v ∈ page.attribute? id "id", v = ""

instance (page : Page) (id : NodeId) : Decidable (page.LacksId id) :=
  inferInstanceAs (Decidable (∀ v ∈ page.attribute? id "id", v = ""))

/-- A node that lacks an identifier gets a generated one. -/
theorem elementId_of_lacksId (h : page.LacksId id) : page.elementId id = page.generateId id := by
  rw [elementId]
  cases hid : page.attribute? id "id" with
  | none => rfl
  | some v => simp [h v hid]

theorem elementId_of_attribute? (hid : page.attribute? id "id" = some v) (hv : v ≠ "") :
    page.elementId id = (page, v) := by
  simp [elementId, hid, hv]

/-- That element has the identifier now, and but for the counter nothing else differs. -/
structure Identifies (page page' : Page) (id : NodeId) (v : String) : Prop where
  element? : page'.element? id = (page.element? id).map (·.set "id" v)
  others : ∀ x, x ≠ id → page'.node? x = page.node? x
  links : page.SameLinks page'
  frame : page' = { page with nodes := page'.nodes, nextGenerated := page'.nextGenerated }

/-- Generating writes the identifier, and nothing else. -/
theorem identifies_generateId : page.Identifies (page.generateId id).1 id (page.generateId id).2 where
  element? := by
    rw [generateId, setAttribute, element?_mapElement, if_pos rfl]
    rfl
  others x hx := by
    rw [generateId, setAttribute, mapElement, node?_update, if_neg hx]
    rfl
  links := by
    have hlinks : Page.SameLinks { page with nextGenerated := page.freshFrom page.nextGenerated page.nodes.size + 1 }
        (page.generateId id).1 := mapElement_sameLinks _
    exact ⟨hlinks.parent?, hlinks.children⟩
  frame := rfl

/-- The numbers that a run took were free and not below the counter, they grow, and what had an identifier
has the same. -/
structure Advances (page page' : Page) (taken : List Nat) : Prop where
  le : page.nextGenerated ≤ page'.nextGenerated
  bounds : ∀ n ∈ taken, page.nextGenerated ≤ n ∧ n < page'.nextGenerated
  grow : taken.Pairwise (· < ·)
  free : ∀ n ∈ taken, page.usesId (generatedId n) = false
  kept : ∀ x v, page.attribute? x "id" = some v → v ≠ "" → page'.attribute? x "id" = some v

namespace Advances

variable {taken taken' : List Nat}

theorem refl (page : Page) : page.Advances page [] :=
  ⟨Nat.le_refl _, by simp, .nil, by simp, fun _ _ hv _ => hv⟩

/-- What is taken in two stretches is taken in both. -/
theorem trans (h : page.Advances page' taken) (h' : page'.Advances page'' taken') :
    page.Advances page'' (taken ++ taken') where
  le := Nat.le_trans h.le h'.le
  bounds n hn := by
    have hle := h.le
    have hle' := h'.le
    rcases List.mem_append.mp hn with hn | hn
    · have hbounds := h.bounds n hn
      omega
    · have hbounds := h'.bounds n hn
      omega
  grow := by
    refine List.pairwise_append.mpr ⟨h.grow, h'.grow, fun n hn m hm => ?_⟩
    have hn := (h.bounds n hn).2
    have hm := (h'.bounds m hm).1
    omega
  free n hn := by
    rcases List.mem_append.mp hn with hn | hn
    · exact h.free n hn
    · -- what is free later was free before, since no identifier is given up
      refine Bool.eq_false_iff.mpr fun huses => ?_
      obtain ⟨x, hx⟩ := usesId_iff.mp huses
      have huses' := usesId_iff.mpr ⟨x, h.kept x _ hx (generatedId_ne_empty n)⟩
      rw [h'.free n hn] at huses'
      cases huses'
  kept x v hv hne := h'.kept x v (h.kept x v hv hne) hne

end Advances

/-- An edit that spares the identifiers takes none. -/
theorem SparesIds.advances (h : page.SparesIds page') : page.Advances page' [] where
  le := Nat.le_of_eq h.nextGenerated.symm
  bounds := by simp
  grow := .nil
  free := by simp
  kept x v hv _ := by
    obtain ⟨el, hel, -⟩ := Option.bind_eq_some_iff.mp hv
    rw [h.kept x (has_of_element? hel), hv]

/-- Generating takes one number, a new one. -/
theorem advances_generateId (h : page.LacksId id) :
    page.Advances (page.generateId id).1 [page.freshFrom page.nextGenerated page.nodes.size] := by
  obtain ⟨tried, htries, -⟩ := page.tries_freshFrom
  obtain ⟨hle, hfree⟩ := htries.free_last
  have hgiven : page.Identifies (page.generateId id).1 id (page.generateId id).2 := identifies_generateId
  refine ⟨Nat.le_succ_of_le hle, ?_, List.pairwise_singleton _ _, by simpa using hfree, fun x v hv hne => ?_⟩
  · simpa using ⟨hle, Nat.lt_succ_self _⟩
  · have hx : x ≠ id := by
      rintro rfl
      exact hne (h v hv)
    have hkind : (page.generateId id).1.kind? x = page.kind? x := by rw [kind?, kind?, hgiven.others x hx]
    rw [attribute?_congr hkind, hv]

/-! ## Sessions -/

/-- An element is asked for its identifier, or something else is done. -/
inductive Step where
  | identify (id : NodeId)
  | edit (e : Edit) (idless : e.Idless)

/-- The page after a step. -/
def Step.perform (page : Page) : Step → Page
  | identify id => (page.elementId id).1
  | edit e _ => e.perform page

/-- The page after a session. -/
def performSteps (page : Page) (steps : List Step) : Page := steps.foldl Step.perform page

/-- The identifier that is generated by the step. -/
def generated? (page : Page) : Step → Option String
  | .identify id => if page.LacksId id then some (page.elementId id).2 else none
  | .edit _ _ => none

/-- The identifiers that are generated on the way, in order. -/
def generatedIds (page : Page) : List Step → List String
  | [] => []
  | step :: rest => (page.generated? step).toList ++ (step.perform page).generatedIds rest

/-- A step takes a number exactly if it generates. -/
theorem advances_step (step : Step) :
    ∃ taken, page.Advances (step.perform page) taken ∧ (page.generated? step).toList = taken.map generatedId := by
  cases step with
  | edit e idless => exact ⟨[], (e.sparesIds idless).advances, rfl⟩
  | identify id =>
    rw [Step.perform, generated?]
    split
    · next hlacks =>
      rw [elementId_of_lacksId hlacks]
      exact ⟨_, advances_generateId hlacks, rfl⟩
    · next hnot =>
      obtain ⟨v, hv, hne⟩ : ∃ v ∈ page.attribute? id "id", v ≠ "" := by simpa [LacksId] using hnot
      rw [elementId_of_attribute? hv hne]
      exact ⟨[], .refl page, rfl⟩

/-- A session takes the numbers of what it generates. By induction on the steps. -/
theorem advances_steps (steps : List Step) :
    ∃ taken, page.Advances (page.performSteps steps) taken ∧ page.generatedIds steps = taken.map generatedId := by
  induction steps generalizing page with
  | nil => exact ⟨[], .refl page, rfl⟩
  | cons step rest ih =>
    obtain ⟨taken, hstep, hgenerated⟩ := page.advances_step step
    obtain ⟨later, hrest, hlater⟩ := @ih (step.perform page)
    exact ⟨taken ++ later, hstep.trans hrest, by rw [generatedIds, hgenerated, hlater, List.map_append]⟩

/-- What a caller gets that asks the element for its identifier. -/
structure Answered (page : Page) (id : NodeId) : Prop where
  authored : ∀ v, page.attribute? id "id" = some v → v ≠ "" → page.elementId id = (page, v)
  generated : page.LacksId id → ∃ tried n,
    page.Tries page.nextGenerated tried n ∧ tried.length ≤ page.nodes.size + 1
      ∧ (page.elementId id).2 = generatedId n
      ∧ page.Identifies (page.elementId id).1 id (generatedId n)
      ∧ ∀ x, page.attribute? x "id" ≠ some (generatedId n)
  again : ∀ steps, ((page.elementId id).1.performSteps steps).elementId id
    = ((page.elementId id).1.performSteps steps, (page.elementId id).2)

/-- After the call the element bears the identifier that was answered. -/
theorem attribute?_elementId (h : (page.element? id).isSome = true) :
    (page.elementId id).1.attribute? id "id" = some (page.elementId id).2 ∧ (page.elementId id).2 ≠ "" := by
  by_cases hlacks : page.LacksId id
  · obtain ⟨el, hel⟩ := Option.isSome_iff_exists.mp h
    rw [elementId_of_lacksId hlacks, attribute?, identifies_generateId.element?, hel]
    exact ⟨by simp [Element.attribute?_set], generatedId_ne_empty _⟩
  · obtain ⟨v, hv, hne⟩ : ∃ v ∈ page.attribute? id "id", v ≠ "" := by simpa [LacksId] using hlacks
    rw [elementId_of_attribute? hv hne]
    exact ⟨hv, hne⟩

/-- Every call on an element is answered well. -/
theorem answered (h : (page.element? id).isSome = true) : page.Answered id where
  authored v hv hne := elementId_of_attribute? hv hne
  generated hlacks := by
    obtain ⟨tried, htries, hlength⟩ := page.tries_freshFrom
    rw [elementId_of_lacksId hlacks]
    refine ⟨tried, _, htries, hlength, rfl, identifies_generateId, fun x hx => ?_⟩
    have huses := usesId_iff.mpr ⟨x, hx⟩
    rw [htries.free_last.2] at huses
    cases huses
  again steps := by
    obtain ⟨hid, hne⟩ := attribute?_elementId h
    obtain ⟨taken, hsteps, -⟩ := (page.elementId id).1.advances_steps steps
    exact elementId_of_attribute? (hsteps.kept id _ hid hne) hne

/-- Over any session: generated identifiers are new, no two the same, and every call is answered. -/
theorem identifiers_session (page : Page) (steps : List Step) :
    (page.generatedIds steps).Nodup
      ∧ (∀ v ∈ page.generatedIds steps, ∀ x, page.attribute? x "id" ≠ some v)
      ∧ ∀ before id after, steps = before ++ .identify id :: after →
        ((page.performSteps before).element? id).isSome = true → (page.performSteps before).Answered id := by
  obtain ⟨taken, hsteps, hgenerated⟩ := page.advances_steps steps
  rw [hgenerated]
  refine ⟨?_, fun v hv x hx => ?_, fun before id after _ hid => answered hid⟩
  · exact (hsteps.grow.imp Nat.ne_of_lt).map _ fun n m hne heq => hne (generatedId_injective heq)
  · obtain ⟨n, hn, rfl⟩ := List.mem_map.mp hv
    have huses := usesId_iff.mpr ⟨x, hx⟩
    rw [hsteps.free n hn] at huses
    cases huses

/-- An identifier that is taken, one that is empty, one that a node keeps which was replaced by its copy, and one
that is asked for twice. -/
theorem identifiers_session_loaded :
    let page := ofDocument
      { nodes := [.element { tag := "p", attributes := [⟨"id", "i-amp-1"⟩] } [],
          .element { tag := "amp-img", attributes := [⟨"id", ""⟩] } [], .element { tag := "amp-ad" } []] }
    let before : List Step := [.identify ⟨4⟩, .edit (.operation (.copy ⟨4⟩)) trivial,
      .edit (.operation (.replace ⟨4⟩ ⟨6⟩)) trivial, .identify ⟨6⟩]
    page.generatedIds (before ++ .identify ⟨5⟩ :: []) = ["i-amp-0", "i-amp-2"]
      ∧ (page.generatedIds (before ++ .identify ⟨5⟩ :: [])).Nodup
      ∧ ((page.performSteps before).element? ⟨5⟩).isSome = true ∧ (page.performSteps before).Answered ⟨5⟩ := by
  intro page before
  have hids : page.generatedIds (before ++ .identify ⟨5⟩ :: []) = ["i-amp-0", "i-amp-2"] := by decide +kernel
  have hel : ((page.performSteps before).element? ⟨5⟩).isSome = true := by decide +kernel
  obtain ⟨hnodup, -, hanswered⟩ := page.identifiers_session (before ++ .identify ⟨5⟩ :: [])
  exact ⟨hids, hnodup, hel, hanswered before ⟨5⟩ [] rfl hel⟩

end Page

end AmpTuner
