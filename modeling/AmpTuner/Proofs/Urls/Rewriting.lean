import AmpTuner.Proofs.Pass.Relocating

/-!
# What becomes of the head

The pass goes over the elements that stand in the head when it begins. **`Becomes`** is the table of what it may make of
one of them: nothing else than before, the same with another address, or a script for old browsers with a twin.

## The architecture

* **`relocate?_eq_some_iff`** reads an address: the network's host and a plain path.
* **`relocateChild_cases`** tells the writes of one turn apart. **`Relocates`** says of a page what the turns over some
  of the children have made of it: each of these by the table, its twin right behind it, and all other nodes as they
  were.
* **`Relocates.trans`** puts turns over different children together; **`exists_relocates_foldl`** is the loop.
-/

namespace AmpTuner

open Markup (Element)
open Vocabulary

/-! ## Attributes written twice, or not there -/

/-- The second value that is written is the one that stays. -/
theorem Markup.Attribute.put_put {name old new : String} (L : List Markup.Attribute) :
    put name new (put name old L) = put name new L := by
  induction L with
  | nil => simp [put]
  | cons a rest ih =>
    rw [put]
    split
    · next ha => simp [put, ha]
    · next ha => rw [put, if_neg ha, ih, put, if_neg ha]

theorem Markup.Element.set_set (el : Element) (name old new : String) :
    (el.set name old).set name new = el.set name new := by
  rw [set, set, Attribute.put_put, set]

theorem Markup.Element.erase_of_hasAttribute {el : Element} {name : String} (h : el.hasAttribute name = false) :
    el.erase name = el := by
  have hnone : ∀ a ∈ el.attributes, ¬ (a.name == name) = true := by simpa [hasAttribute] using h
  rw [erase, List.eraseP_of_forall_not hnone]

/-- Behind a mark that is there once. -/
theorem insertAfter_eq_flatMap {new mark : NodeId} {L : List NodeId} (hnodup : L.Nodup) (hmark : mark ∈ L) :
    insertAfter new mark L = L.flatMap fun x => x :: if x = mark then [new] else [] := by
  have hkeep {rest : List NodeId} (hrest : mark ∉ rest) :
      (rest.flatMap fun x => x :: if x = mark then [new] else []) = rest := by
    refine (List.flatMap_congr fun x hx => ?_).trans (List.flatMap_singleton' rest)
    rw [if_neg fun heq : x = mark => hrest (heq ▸ hx)]
  induction L with
  | nil => cases hmark
  | cons x rest ih =>
    obtain ⟨hx, hnodup⟩ := List.nodup_cons.mp hnodup
    rw [insertAfter, List.flatMap_cons]
    split
    · next heq => rw [hkeep (heq ▸ hx), List.cons_append, List.singleton_append]
    · next hne => rw [ih hnodup ((List.mem_cons.mp hmark).resolve_left fun heq => hne heq.symm), List.singleton_append]

/-- The stem is what stands in front of the ending. -/
theorem Text.beforeEnd?_eq_some_iff {ending s stem : String} :
    beforeEnd? ending s = some stem ↔ s = stem ++ ending := by
  rw [beforeEnd?, endsWith]
  constructor
  · intro h
    split at h
    · next hends =>
      obtain ⟨before, hbefore⟩ := List.isSuffixOf_iff_suffix.mp hends
      refine String.toList_injective ?_
      rw [← Option.some.inj h, String.toList_append, String.toList_ofList, ← hbefore, List.length_append,
        Nat.add_sub_cancel, List.take_left]
    · cases h
  · rintro rfl
    rw [String.toList_append, if_pos (List.isSuffixOf_iff_suffix.mpr (List.suffix_append _ _)), List.length_append,
      Nat.add_sub_cancel, List.take_left, String.ofList_toList]

namespace Urls

variable {s : Settings.Urls} {page page' page'' : Page} {id x : NodeId} {el el' : Element}

/-! ## Addresses and their paths -/

/-- A path on the network that names neither a channel nor a release. -/
structure IsPlain (path : String) : Prop where
  rooted : Text.startsWith "/" path = true
  not_channel : Text.startsWith "/lts/" path = false
  not_release : Text.startsWith "/rtv/" path = false

/-- What is relocated is the host followed by a plain path, and the path is put behind the base. -/
theorem relocate?_eq_some_iff {url base new : String} :
    relocate? url base = some new ↔ ∃ path, IsPlain path ∧ url = cdnHost ++ path ∧ new = base ++ path := by
  have hplain (path : String) :
      (!Text.startsWith "/" path || Text.startsWith "/lts/" path || Text.startsWith "/rtv/" path) = false
        ↔ IsPlain path := by
    simp only [Bool.or_eq_false_iff, Bool.not_eq_false']
    exact ⟨fun h => ⟨h.1.1, h.1.2, h.2⟩, fun h => ⟨⟨h.rooted, h.not_channel⟩, h.not_release⟩⟩
  constructor
  · intro h
    rw [relocate?] at h
    split at h
    · cases h
    · next path hpath =>
      split at h
      · cases h
      · next hkept =>
        exact ⟨path, (hplain path).mp (Bool.eq_false_iff.mpr hkept), Extensions.eq_append_of_afterStart? hpath,
          (Option.some.inj h).symm⟩
  · rintro ⟨path, hpath, rfl, rfl⟩
    have hafter : Text.afterStart? cdnHost (cdnHost ++ path) = some path := by
      rw [Text.afterStart?, if_pos (Extensions.startsWith_append _ _), String.toList_append, List.drop_left,
        String.ofList_toList]
    simp only [relocate?, hafter, (hplain path).mpr hpath]
    rfl

example : relocate? "https://cdn.ampproject.organic/v0.js" "https://amp.example" = none := by decide

/-- The ending of an address is that of its path. -/
theorem exists_stem_iff {base path stem ending : String} (hpath : IsPlain path) (hending : '/' ∉ ending.toList) :
    base ++ path = stem ++ ending ↔ ∃ rest, path = rest ++ ending ∧ stem = base ++ rest := by
  constructor
  · intro heq
    have heq : base.toList ++ path.toList = stem.toList ++ ending.toList := by
      rw [← String.toList_append, heq, String.toList_append]
    obtain ⟨rest, hrest⟩ : ending.toList <:+ path.toList := by
      refine (List.suffix_or_suffix_of_suffix (heq ▸ List.suffix_append _ _) (List.suffix_append _ _)).resolve_left
        fun hshort => ?_
      -- the path would have to be a part of the ending, in which there is no slash
      obtain ⟨more, hmore⟩ := startsWith_iff.mp hpath.rooted
      exact hending (hshort.subset (hmore ▸ List.mem_append_left _ (by decide)))
    refine ⟨String.ofList rest, String.toList_injective ?_, String.toList_injective ?_⟩
    · rw [String.toList_append, String.toList_ofList, hrest]
    · rw [← hrest, ← List.append_assoc] at heq
      rw [String.toList_append, String.toList_ofList, List.append_cancel_right heq]
  · rintro ⟨rest, rfl, rfl⟩
    rw [String.append_assoc]

/-! ## The table -/

/-- The attribute of a script or a link holds an address on the network. -/
structure Addressed (el : Element) (name path : String) : Prop where
  named : addressName? el.tag = some name
  url : el.attribute? name = some (cdnHost ++ path)
  plain : IsPlain path

/-- A script for all browsers. -/
structure IsClassic (el : Element) : Prop where
  tag : el.tag = "script"
  type : el.attribute? "type" ≠ some "module"
  nomodule : el.hasAttribute "nomodule" = false

/-- What the pass makes of an element in the head, and the twin that this gets. -/
inductive Becomes (s : Settings.Urls) (el : Element) : Element → Option Element → Prop where
  | kept (h : ∀ name path, ¬ Addressed el name path) : Becomes s el el none
  | moved {name path : String} (h : Addressed el name path)
      (hsingle : s.modules = true → IsClassic el → ∀ stem, path ≠ stem ++ ".js") :
      Becomes s el (el.set name (base s ++ path)) none
  | twinned {stem : String} (h : Addressed el "src" (stem ++ ".js")) (hmodules : s.modules = true)
      (hclassic : IsClassic el) :
      Becomes s el ((el.set "src" (base s ++ (stem ++ ".js"))).set "nomodule" "")
        (some (((el.set "src" (base s ++ (stem ++ ".mjs"))).set "type" "module").set "crossorigin" "anonymous"))

theorem isClassicScript_iff : isClassicScript el = true ↔ IsClassic el := by
  simp only [isClassicScript, isModuleScript, Bool.and_eq_true, beq_iff_eq, Bool.not_eq_true', beq_eq_false_iff_ne]
  exact ⟨fun h => ⟨h.1.1, h.1.2, h.2⟩, fun h => ⟨⟨h.tag, h.type⟩, h.nomodule⟩⟩

theorem IsClassic.name {name : String} (h : IsClassic el) (hname : addressName? el.tag = some name) : name = "src" := by
  rw [h.tag] at hname
  exact (Option.some.inj hname).symm

/-- Relocated, copied and changed, a script for all browsers becomes the twin of the table. -/
theorem IsClassic.twinOf_eq (h : IsClassic el) (url base stem : String) :
    twinOf (base ++ stem) (el.set "src" url)
      = ((el.set "src" (base ++ (stem ++ ".mjs"))).set "type" "module").set "crossorigin" "anonymous" := by
  rw [twinOf, Element.set_set, String.append_assoc, Element.erase_of_hasAttribute]
  rw [Element.hasAttribute_set, Element.hasAttribute_set, Element.hasAttribute_set, h.nomodule]
  decide

/-! ## One turn -/

theorem Addressed.relocate?_eq {name path : String} (h : Addressed el name path) (base : String) :
    (el.attribute? name).bind (relocate? · base) = some (base ++ path) := by
  rw [h.url, Option.bind_some]
  exact relocate?_eq_some_iff.mpr ⟨path, h.plain, rfl, rfl⟩

/-- A child with an address gets the new one, and a twin if modules are asked for and its script is classic. -/
theorem relocateChild_of_addressed (hel : page.element? id = some el) {name path : String}
    (h : Addressed el name path) : relocateChild s page id = if s.modules && isClassicScript el
      then addTwin (page.setAttribute id name (base s ++ path)) id
      else page.setAttribute id name (base s ++ path) := by
  simp only [relocateChild, hel, h.named, h.relocate?_eq]

/-- A child without an address is left alone. -/
theorem relocateChild_of_not_addressed (hel : page.element? id = some el) (h : ∀ name path, ¬ Addressed el name path) :
    relocateChild s page id = page := by
  cases hname : addressName? el.tag with
  | none => simp only [relocateChild, hel, hname]
  | some name =>
    cases hmoved : (el.attribute? name).bind (relocate? · (base s)) with
    | none => simp only [relocateChild, hel, hname, hmoved]
    | some new =>
      obtain ⟨url, hurl, hnew⟩ := Option.bind_eq_some_iff.mp hmoved
      obtain ⟨path, hpath, rfl, -⟩ := relocate?_eq_some_iff.mp hnew
      exact absurd ⟨hname, hurl, hpath⟩ (h name path)

/-- The ending of a relocated address is that of its path. -/
theorem addTwin_cases (hel : page.element? id = some el) {base path : String} (hpath : IsPlain path) :
    (addTwin (page.setAttribute id "src" (base ++ path)) id = page.setAttribute id "src" (base ++ path)
        ∧ ∀ stem, path ≠ stem ++ ".js")
      ∨ ∃ stem, path = stem ++ ".js" ∧ addTwin (page.setAttribute id "src" (base ++ path)) id
          = (withTwin (page.setAttribute id "src" (base ++ path)) id (base ++ stem)).insertChildAfter
              page.head page.next id := by
  have hsource : (page.setAttribute id "src" (base ++ path)).attribute? id "src" = some (base ++ path) := by
    rw [Page.attribute?, Page.setAttribute, Page.element?_mapElement, if_pos rfl, hel, Option.map_some,
      Option.bind_some, Element.attribute?_set, if_pos rfl]
  have hnext : (page.setAttribute id "src" (base ++ path)).next = page.next :=
    Page.next_eq_of_has fun _ => Page.has_mapElement _
  rw [addTwin_eq, hsource, Option.bind_some]
  cases hstem : Text.beforeEnd? ".js" (base ++ path) with
  | none =>
    refine .inl ⟨Option.elim_none .., fun stem hpath => ?_⟩
    rw [hpath, ← String.append_assoc, Text.beforeEnd?_eq_some_iff.mpr rfl] at hstem
    cases hstem
  | some stem =>
    obtain ⟨rest, rfl, rfl⟩ := (exists_stem_iff hpath (by decide)).mp (Text.beforeEnd?_eq_some_iff.mp hstem)
    refine .inr ⟨rest, rfl, ?_⟩
    rw [Option.elim_some, hnext]
    rfl

/-- What the writes of a turn come to. -/
theorem relocateChild_cases (hel : page.element? id = some el) :
    (relocateChild s page id = page ∧ ∀ name path, ¬ Addressed el name path)
      ∨ (∃ name path, Addressed el name path
          ∧ (s.modules = true → IsClassic el → ∀ stem, path ≠ stem ++ ".js")
          ∧ relocateChild s page id = page.setAttribute id name (base s ++ path))
      ∨ ∃ stem, Addressed el "src" (stem ++ ".js") ∧ s.modules = true ∧ IsClassic el
          ∧ relocateChild s page id = (withTwin (page.setAttribute id "src" (base s ++ (stem ++ ".js"))) id
              (base s ++ stem)).insertChildAfter page.head page.next id := by
  by_cases haddressed : ∃ name path, Addressed el name path
  · obtain ⟨name, path, h⟩ := haddressed
    have hturn := relocateChild_of_addressed (s := s) hel h
    by_cases hclassic : (s.modules && isClassicScript el) = true
    · obtain ⟨hmodules, hscript⟩ := Bool.and_eq_true_iff.mp hclassic
      have hscript := isClassicScript_iff.mp hscript
      obtain rfl := hscript.name h.named
      rw [if_pos hclassic] at hturn
      rcases addTwin_cases hel h.plain with ⟨htwin, hpath⟩ | ⟨stem, rfl, htwin⟩
      · exact .inr (.inl ⟨"src", path, h, fun _ _ => hpath, hturn.trans htwin⟩)
      · exact .inr (.inr ⟨stem, h, hmodules, hscript, hturn.trans htwin⟩)
    · rw [if_neg hclassic] at hturn
      refine .inr (.inl ⟨name, path, h, fun hmodules hscript => ?_, hturn⟩)
      exact absurd (Bool.and_eq_true_iff.mpr ⟨hmodules, isClassicScript_iff.mpr hscript⟩) hclassic
  · have hkept (name path : String) (h : Addressed el name path) : False := haddressed ⟨name, path, h⟩
    exact .inl ⟨relocateChild_of_not_addressed hel hkept, hkept⟩

/-- The page after the turns over some children of the head, with the twins that each of these has got. -/
structure Relocates (s : Settings.Urls) (todo : List NodeId) (twins : NodeId → List NodeId) (page page' : Page) :
    Prop where
  maintains : page.Maintains page'
  frame : page.SameFrame page'
  /-- What the pass does not go over is what it was. -/
  kind? : ∀ x, page.Has x → x ∉ todo → page'.kind? x = page.kind? x
  becomes : ∀ x ∈ todo, ∃ el el' twin, page.element? x = some el ∧ page'.element? x = some el' ∧ Becomes s el el' twin
    ∧ (twins x).map page'.element? = twin.toList.map some
  twins_eq_nil : ∀ x, x ∉ todo → twins x = []
  /-- A twin is new, and has no content. -/
  fresh : ∀ x, ∀ t ∈ twins x, ¬ page.Has t ∧ page'.children t = []
  children_head : page'.children page.head = (page.children page.head).flatMap fun x => x :: twins x
  children : ∀ x, page.Has x → x ≠ page.head → page'.children x = page.children x

namespace Relocates

variable {todo more : List NodeId} {twins twins' : NodeId → List NodeId}

/-- Turns that leave everything as it is. -/
theorem of_kept (h : page.WellFormed)
    (hkept : ∀ x ∈ todo, ∃ el, page.element? x = some el ∧ ∀ name path, ¬ Addressed el name path) :
    Relocates s todo (fun _ => []) page page where
  maintains := .refl h
  frame := .refl page
  kind? _ _ _ := rfl
  becomes x hx := by
    obtain ⟨el, hel, hkept⟩ := hkept x hx
    exact ⟨el, el, none, hel, hel, .kept hkept, rfl⟩
  twins_eq_nil _ _ := rfl
  fresh _ _ ht := nomatch ht
  children_head := (List.flatMap_singleton' _).symm
  children _ _ _ := rfl

/-- All nodes there were stay. -/
theorem has (h : Relocates s todo twins page page') (hx : page.Has x) : page'.Has x := by
  by_cases hmem : x ∈ todo
  · obtain ⟨_, _, _, -, hel', -⟩ := h.becomes x hmem
    exact Page.has_of_element? hel'
  · exact (Page.has_congr (h.kind? x hx hmem)).mpr hx

/-- A twin is there once the pass has gone over its script. -/
theorem has_twin (h : Relocates s todo twins page page') {t : NodeId} (ht : t ∈ twins x) : page'.Has t := by
  have hx : x ∈ todo := by
    by_contra hx
    rw [h.twins_eq_nil x hx] at ht
    cases ht
  obtain ⟨_, _, twin, -, -, -, htwins⟩ := h.becomes x hx
  have hmem : page'.element? t ∈ twin.toList.map some := htwins ▸ List.mem_map_of_mem ht
  obtain ⟨el, -, hel⟩ := List.mem_map.mp hmem
  exact Page.has_of_element? hel.symm

/-- Turns over some of the children, and then over others. -/
theorem trans (hpage : page.WellFormed) (h : Relocates s todo twins page page')
    (h' : Relocates s more twins' page' page'') (hmore : ∀ x ∈ more, page.Has x ∧ x ∉ todo) :
    Relocates s (todo ++ more) (fun x => twins' x ++ twins x) page page'' where
  maintains := h.maintains.trans h'.maintains
  frame := h.frame.trans h'.frame
  kind? x hx hmem := by
    obtain ⟨htodo, hmore⟩ := not_or.mp (mt List.mem_append.mpr hmem)
    rw [h'.kind? x (h.has hx) hmore, h.kind? x hx htodo]
  becomes x hx := by
    rcases List.mem_append.mp hx with htodo | hx
    · obtain ⟨el, el', twin, hel, hel', hbecomes, htwins⟩ := h.becomes x htodo
      have hout : x ∉ more := fun hx => (hmore x hx).2 htodo
      refine ⟨el, el', twin, hel, ?_, hbecomes, ?_⟩
      · rw [Page.element?_congr (h'.kind? x (Page.has_of_element? hel') hout), hel']
      · rw [h'.twins_eq_nil x hout, List.nil_append, ← htwins]
        refine List.map_congr_left fun t ht => Page.element?_congr (h'.kind? t (h.has_twin ht) fun hmem => ?_)
        exact (h.fresh x t ht).1 (hmore t hmem).1
    · obtain ⟨hhas, htodo⟩ := hmore x hx
      obtain ⟨el, el', twin, hel, hel', hbecomes, htwins⟩ := h'.becomes x hx
      rw [Page.element?_congr (h.kind? x hhas htodo)] at hel
      exact ⟨el, el', twin, hel, hel', hbecomes, by rw [h.twins_eq_nil x htodo, List.append_nil, htwins]⟩
  twins_eq_nil x hx := by
    obtain ⟨htodo, hmore⟩ := not_or.mp (mt List.mem_append.mpr hx)
    rw [h'.twins_eq_nil x hmore, h.twins_eq_nil x htodo, List.nil_append]
  fresh x t ht := by
    rcases List.mem_append.mp ht with ht | ht
    · obtain ⟨hfresh, hchildren⟩ := h'.fresh x t ht
      exact ⟨fun hhas => hfresh (h.has hhas), hchildren⟩
    · obtain ⟨hfresh, hchildren⟩ := h.fresh x t ht
      have hne : t ≠ page'.head := by
        rintro rfl
        exact hfresh (h.frame.head ▸ hpage.has_head)
      exact ⟨hfresh, by rw [h'.children t (h.has_twin ht) hne, hchildren]⟩
  children_head := by
    rw [← h.frame.head, h'.children_head, h.frame.head, h.children_head, List.flatMap_assoc]
    refine List.flatMap_congr fun x _ => ?_
    -- the second pass goes over no twin
    have htwins : ((twins x).flatMap fun t => t :: twins' t) = twins x := by
      refine (List.flatMap_congr fun t ht => ?_).trans (List.flatMap_singleton' _)
      rw [h'.twins_eq_nil t fun hmem => (h.fresh x t ht).1 (hmore t hmem).1]
    rw [List.flatMap_cons, htwins, List.cons_append]
  children x hx hne := by
    rw [h'.children x (h.has hx) (h.frame.head ▸ hne), h.children x hx hne]

/-- A child of the head stays one, and what the pass does not go over stays an element. -/
theorem mem_elementChildren (hpage : page.WellFormed) (h : Relocates s todo twins page page')
    (hx : x ∈ page.elementChildren page.head) (hout : x ∉ todo) : x ∈ page'.elementChildren page'.head := by
  obtain ⟨hparent, el, hel⟩ := hpage.linked.mem_elementChildren_iff.mp hx
  refine h.maintains.wellFormed.linked.mem_elementChildren_iff.mpr ⟨?_, el, ?_⟩
  · rw [← h.maintains.wellFormed.linked.mem_children_iff, h.frame.head, h.children_head]
    exact List.mem_flatMap.mpr ⟨x, (hpage.linked.mem_children_iff _ _).mpr hparent, List.mem_cons_self⟩
  · rw [Page.element?_congr (h.kind? x (Page.has_of_element? hel) hout), hel]

end Relocates

section Turns

variable (h : page.WellFormed)

include h

/-- A turn that only sets an address is a turn without a twin. -/
theorem relocates_setAttribute {name value : String} (hel : page.element? id = some el)
    (hbecomes : Becomes s el (el.set name value) none) :
    Relocates s [id] (fun _ => []) page (page.setAttribute id name value) where
  maintains := h.maintains_setAttribute
  frame := Page.mapElement_sameFrame _
  kind? x _ hx := Page.kind?_mapElement_of_ne _ (List.ne_of_not_mem_cons hx)
  becomes x hx := by
    obtain rfl := List.mem_singleton.mp hx
    refine ⟨el, _, none, hel, ?_, hbecomes, rfl⟩
    rw [Page.setAttribute, Page.element?_mapElement, if_pos rfl, hel, Option.map_some]
  twins_eq_nil _ _ := rfl
  fresh _ _ ht := nomatch ht
  children_head := ((Page.mapElement_sameLinks _).children _).trans (List.flatMap_singleton' _).symm
  children x _ _ := (Page.mapElement_sameLinks _).children x

/-- A script with a new address whose copy has been changed into a twin. -/
structure Paired (page page' : Page) (id : NodeId) (el' twin : Element) : Prop where
  frame : page.SameFrame page'
  links : page.SameLinks page'
  kind? : ∀ x, page.Has x → x ≠ id → page'.kind? x = page.kind? x
  script : page'.element? id = some el'
  twin : page'.element? page.next = some twin

/-- The copy of a script becomes its twin by the marks of a module, and the script gets its own mark. -/
theorem paired_withTwin (url stem : String) (hel : page.element? id = some el) :
    Paired page (withTwin (page.setAttribute id "src" url) id stem) id ((el.set "src" url).set "nomodule" "")
      (twinOf stem (el.set "src" url)) := by
  have hset : (page.setAttribute id "src" url).element? id = some (el.set "src" url) := by
    rw [Page.setAttribute, Page.element?_mapElement, if_pos rfl, hel, Option.map_some]
  have hnext : (page.setAttribute id "src" url).next = page.next := Page.next_eq_of_has fun _ => Page.has_mapElement _
  have hne : id ≠ page.next := Page.ne_next_of_has (Page.has_of_element? hel)
  refine ⟨?_, (Page.mapElement_sameLinks _).trans (withTwin_sameLinks _ _ _), fun x hx hne => ?_, ?_, ?_⟩
  · exact (Page.mapElement_sameFrame _).trans
      (((Page.create_sameFrame _).trans (Page.mapElement_sameFrame _)).trans (Page.mapElement_sameFrame _))
  · have hhas : (page.setAttribute id "src" url).Has x := (Page.has_mapElement _).mpr hx
    rw [withTwin, Page.setAttribute, Page.kind?_mapElement_of_ne _ hne,
      Page.kind?_mapElement_of_ne _ (Page.ne_next_of_has hhas), Page.copy, Page.kind?_create_of_has _ hhas,
      Page.setAttribute, Page.kind?_mapElement_of_ne _ hne]
  · rw [element?_withTwin h.setAttribute hset, hnext, if_neg hne, if_pos rfl]
  · rw [element?_withTwin h.setAttribute hset, hnext, if_pos rfl]

/-- A script is relocated, and its twin gets its place behind it. -/
theorem Paired.relocates {twin : Element} (hpaired : Paired page page' id el' twin) (hel : page.element? id = some el)
    (hparent : page.parent? id = some page.head) (hbecomes : Becomes s el el' (some twin))
    (hmaintains : page.Maintains (page'.insertChildAfter page.head page.next id)) :
    Relocates s [id] (fun x => if x = id then [page.next] else []) page
      (page'.insertChildAfter page.head page.next id) := by
  have hkind {x : NodeId} : (page'.insertChildAfter page.head page.next id).kind? x = page'.kind? x := Page.kind?_attach
  have hhead : page'.Has page.head :=
    (hpaired.links.linked h.linked).has_parent ((hpaired.links.parent? id).trans hparent)
  have hchildren (x : NodeId) : (page'.insertChildAfter page.head page.next id).children x
      = if x = page.head then insertAfter page.next id (page.children x) else page.children x := by
    have hfilter : (page'.children x).filter (· != page.next) = page.children x := by
      rw [hpaired.links.children]
      refine List.filter_eq_self.mpr fun c hc => ?_
      rw [bne_iff_ne]
      rintro rfl
      exact h.linked.next_not_mem_children hc
    rw [Page.insertChildAfter, (hpaired.links.linked h.linked).children_attach hhead, hfilter]
  exact {
    maintains := hmaintains
    frame := hpaired.frame.trans Page.attach_sameFrame
    kind? := fun x hx hmem => hkind.trans (hpaired.kind? x hx (List.ne_of_not_mem_cons hmem))
    becomes := fun x hx => by
      obtain rfl := List.mem_singleton.mp hx
      refine ⟨el, el', some twin, hel, (Page.element?_congr hkind).trans hpaired.script, hbecomes, ?_⟩
      rw [if_pos rfl, List.map_singleton, Page.element?_congr hkind, hpaired.twin]
      rfl
    twins_eq_nil := fun x hx => if_neg (List.ne_of_not_mem_cons hx)
    fresh := fun x t ht => by
      obtain rfl : t = page.next := by
        split at ht
        · exact List.mem_singleton.mp ht
        · cases ht
      refine ⟨Page.not_has_next, ?_⟩
      rw [hchildren, if_neg (Page.ne_next_of_has h.has_head).symm, Page.children_of_not_has Page.not_has_next]
    children_head := by
      rw [hchildren, if_pos rfl,
        insertAfter_eq_flatMap (h.linked.nodup _) ((h.linked.mem_children_iff _ _).mpr hparent)]
    children := fun x _ hne => by rw [hchildren, if_neg hne] }

/-- One turn of the pass. -/
theorem exists_relocates_relocateChild (hid : id ∈ page.elementChildren page.head) :
    ∃ twins, Relocates s [id] twins page (relocateChild s page id) := by
  obtain ⟨hparent, el, hel⟩ := h.linked.mem_elementChildren_iff.mp hid
  have hmaintains := maintains_relocateChild h s id
  rcases relocateChild_cases (s := s) hel with ⟨heq, hkept⟩ | ⟨name, path, haddressed, hsingle, heq⟩
    | ⟨stem, haddressed, hmodules, hclassic, heq⟩
  · rw [heq]
    exact ⟨_, .of_kept h fun x hx => ⟨el, List.mem_singleton.mp hx ▸ hel, hkept⟩⟩
  · rw [heq]
    exact ⟨_, relocates_setAttribute h hel (.moved haddressed hsingle)⟩
  · rw [heq] at hmaintains ⊢
    have hpaired := paired_withTwin h (base s ++ (stem ++ ".js")) (base s ++ stem) hel
    rw [hclassic.twinOf_eq] at hpaired
    exact ⟨_, hpaired.relocates h hel hparent (.twinned haddressed hmodules hclassic) hmaintains⟩

/-- The loop. -/
theorem exists_relocates_foldl {todo : List NodeId} (hnodup : todo.Nodup)
    (htodo : ∀ id ∈ todo, id ∈ page.elementChildren page.head) :
    ∃ twins, Relocates s todo twins page (todo.foldl (relocateChild s) page) := by
  induction todo generalizing page with
  | nil => exact ⟨_, .of_kept h (by simp)⟩
  | cons id todo ih =>
    obtain ⟨hid, hnodup⟩ := List.nodup_cons.mp hnodup
    obtain ⟨hfirst, htodo⟩ := List.forall_mem_cons.mp htodo
    obtain ⟨twins, hturn⟩ := exists_relocates_relocateChild (s := s) h hfirst
    have hout (x : NodeId) (hx : x ∈ todo) : x ∉ [id] := by
      rintro hmem
      exact hid (List.mem_singleton.mp hmem ▸ hx)
    obtain ⟨twins', hrest⟩ := ih hturn.maintains.wellFormed hnodup fun x hx =>
      hturn.mem_elementChildren h (htodo x hx) (hout x hx)
    refine ⟨_, hturn.trans h hrest fun x hx => ⟨?_, hout x hx⟩⟩
    exact Page.has_of_parent? (h.linked.mem_elementChildren_iff.mp (htodo x hx)).1

end Turns

end Urls
end AmpTuner
