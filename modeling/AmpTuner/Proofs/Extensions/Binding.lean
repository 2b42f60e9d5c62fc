import AmpTuner.Proofs.Page.WellFormed
import AmpTuner.Proofs.Page.Preorder
import AmpTuner.Pass.Extensions

/-!
# Bound attributes spelled out

Spelling out renames attributes one after the other, each in its place, and refuses a name that is
taken.

* **`mem_names_spellOut`**: every attribute is there afterwards under the name that it is spelled out
  to, be it the renamed one or the one that had the name before.
* **`attribute?_spellOut`**: nothing else is touched; a name that is neither shorthand nor spelled out
  (`Unbound`) gives what it gave.
* **`respelled_spellOut`**: every attribute keeps its place and its value, and **`spellOut_spellOut`**: what is
  spelled out stays as it is.
* **`kind?_spellOutAll`**: on a page this happens exactly once to every element below the root and to no
  other.
-/

namespace AmpTuner

open Markup (Element Attribute)
open Markup.Attribute (names)
open Vocabulary (bindStart)

namespace Page

variable {page : Page} {x : NodeId} {f : Element → Element} {ids : List NodeId}

/-! ## One change to many elements -/

/-- Changes to elements leave the frame of the page as it is. -/
theorem foldl_mapElement_sameFrame :
    page.SameFrame (ids.foldl (fun page id => page.mapElement id f) page) := by
  induction ids generalizing page with
  | nil => exact .refl page
  | cons id ids ih => exact (mapElement_sameFrame f).trans ih

/-- Changes to elements leave every link as it is. -/
theorem foldl_mapElement_sameLinks :
    page.SameLinks (ids.foldl (fun page id => page.mapElement id f) page) := by
  induction ids generalizing page with
  | nil => exact .refl page
  | cons id ids ih => exact (mapElement_sameLinks f).trans ih

/-- Changes to elements make no node and lose none. -/
theorem has_foldl_mapElement :
    (ids.foldl (fun page id => page.mapElement id f) page).Has x ↔ page.Has x := by
  induction ids generalizing page with
  | nil => rfl
  | cons id ids ih => exact ih.trans (has_mapElement f)

/-- A node that is listed once is changed once. -/
theorem kind?_foldl_mapElement (hnodup : ids.Nodup) :
    (ids.foldl (fun page id => page.mapElement id f) page).kind? x
      = if x ∈ ids then (page.kind? x).map (·.mapElement f) else page.kind? x := by
  induction ids generalizing page with
  | nil => rfl
  | cons id ids ih =>
    obtain ⟨hid, hnodup⟩ := List.nodup_cons.mp hnodup
    rw [List.foldl_cons, ih hnodup, kind?_mapElement]
    by_cases hx : x = id
    · subst hx
      simp [hid]
    · simp [hx]

/-- An element that is changed reads as changed. -/
theorem element?_of_kind?_map {page' : Page} (h : page'.kind? x = (page.kind? x).map (·.mapElement f)) :
    page'.element? x = (page.element? x).map f := by
  rw [element?, h, element?]
  cases page.kind? x with
  | none => rfl
  | some kind => cases kind <;> rfl

/-- A change that keeps tags and distinct names keeps the page well formed, however many elements undergo it. -/
theorem WellFormed.foldl_mapElement (h : page.WellFormed) (htag : ∀ el, (f el).tag = el.tag)
    (hdistinct : ∀ el, el.Distinct → (f el).Distinct) :
    (ids.foldl (fun page id => page.mapElement id f) page).WellFormed := by
  induction ids generalizing page with
  | nil => exact h
  | cons id ids ih => exact ih (h.mapElement htag hdistinct)

end Page

namespace Extensions

variable {el : Element} {name other : String} {x : NodeId} {page : Page}

/-! ## Names -/

theorem startsWith_append (start rest : String) : Text.startsWith start (start ++ rest) = true := by
  rw [Text.startsWith, String.toList_append]
  exact List.isPrefixOf_iff_prefix.mpr (List.prefix_append _ _)

theorem afterStart?_eq_none_iff {start : String} :
    Text.afterStart? start name = none ↔ Text.startsWith start name = false := by
  rw [Text.afterStart?]
  split <;> simp [*]

/-- What is left behind a start makes the name with it. -/
theorem eq_append_of_afterStart? {start rest : String} (h : Text.afterStart? start name = some rest) :
    name = start ++ rest := by
  rw [Text.afterStart?] at h
  split at h
  · next hstart =>
    obtain ⟨after, hafter⟩ := List.isPrefixOf_iff_prefix.mp hstart
    refine String.toList_injective ?_
    rw [← Option.some.inj h, String.toList_append, String.toList_ofList, ← hafter, List.drop_left]
  · cases h

/-- The name that spelling out makes of a name. -/
def spelledName (name : String) : String :=
  (Text.afterStart? shorthand name).elim name (bindStart ++ ·)

theorem spelledName_of_some {rest : String} (h : Text.afterStart? shorthand name = some rest) :
    spelledName name = bindStart ++ rest := by
  rw [spelledName, h]
  rfl

theorem spelledName_of_none (h : Text.afterStart? shorthand name = none) : spelledName name = name := by
  rw [spelledName, h]
  rfl

theorem startsWith_bindStart (rest : String) : Text.startsWith shorthand (bindStart ++ rest) = false := by
  rw [Text.startsWith, String.toList_append]
  rfl

/-- What is spelled out is no shorthand again. -/
theorem afterStart?_spelledName (name : String) :
    Text.afterStart? shorthand (spelledName name) = none := by
  cases h : Text.afterStart? shorthand name with
  | none => rwa [spelledName_of_none h]
  | some rest =>
    rw [spelledName_of_some h, afterStart?_eq_none_iff, startsWith_bindStart]

/-- A name that spelling out neither takes nor gives. -/
def Unbound (name : String) : Prop :=
  Text.startsWith shorthand name = false ∧ Text.startsWith bindStart name = false

instance (name : String) : Decidable (Unbound name) := inferInstanceAs (Decidable (_ ∧ _))

/-! ## One attribute -/

/-- One attribute spelled out. -/
def spellOutName (el : Element) (name : String) : Element :=
  match Text.afterStart? shorthand name with
  | none => el
  | some rest => (el.rename? name (bindStart ++ rest)).getD el

theorem spellOut_eq : spellOut el = (names el.attributes).foldl spellOutName el := rfl

/-- The attribute is renamed, or the element stays as it is: there was no shorthand, no such
attribute, or another of the name that it would get. -/
theorem spellOutName_cases (el : Element) (name : String) :
    (spellOutName el name = el
      ∧ (name ∈ names el.attributes → spelledName name ∈ names el.attributes))
    ∨ ∃ rest, Text.afterStart? shorthand name = some rest
      ∧ el.rename? name (bindStart ++ rest) = some (spellOutName el name) := by
  cases hrest : Text.afterStart? shorthand name with
  | none =>
    rw [spellOutName, hrest, spelledName_of_none hrest]
    exact .inl ⟨rfl, fun h => h⟩
  | some rest =>
    have hunfold : spellOutName el name = (el.rename? name (bindStart ++ rest)).getD el := by
      rw [spellOutName, hrest]
    rw [hunfold, spelledName_of_some hrest]
    cases hel : el.rename? name (bindStart ++ rest) with
    | some el' => exact .inr ⟨rest, rfl, hel⟩
    | none =>
      refine .inl ⟨rfl, fun hname => ?_⟩
      rw [Element.rename?] at hel
      split at hel
      · next hrefused =>
        rw [Element.hasAttribute_iff.mpr hname, Bool.not_true, Bool.or_false] at hrefused
        exact Element.hasAttribute_iff.mp hrefused
      · cases hel

/-- An attribute that has nothing to do with bindings keeps its value. -/
theorem attribute?_spellOutName (h : Unbound other) :
    (spellOutName el name).attribute? other = el.attribute? other := by
  rcases spellOutName_cases el name with ⟨heq, _⟩ | ⟨rest, hrest, hel⟩
  · rw [heq]
  · refine Element.attribute?_rename?_of_ne hel ?_ ?_
    · rintro rfl
      rw [afterStart?_eq_none_iff.mpr h.1] at hrest
      cases hrest
    · rintro rfl
      exact absurd h.2 (by simp [startsWith_append])

/-- A name leaves only by being spelled out. -/
theorem mem_names_spellOutName_of_ne (h : other ∈ names el.attributes)
    (hne : other ≠ name ∨ Text.afterStart? shorthand other = none) :
    other ∈ names (spellOutName el name).attributes := by
  rcases spellOutName_cases el name with ⟨heq, _⟩ | ⟨rest, hrest, hel⟩
  · rwa [heq]
  · have hold : other ≠ name := by
      rcases hne with hne | hnone
      · exact hne
      · rintro rfl
        rw [hnone] at hrest
        cases hrest
    rw [(Element.names_rename? hel).mem_iff, List.mem_cons, List.mem_erase_of_ne hold]
    exact .inr h

/-- Whether the name was spelled out or was taken already, its long form is there in the end. -/
theorem mem_names_spellOutName_self (h : name ∈ names el.attributes) :
    spelledName name ∈ names (spellOutName el name).attributes := by
  rcases spellOutName_cases el name with ⟨heq, hmem⟩ | ⟨rest, hrest, hel⟩
  · rw [heq]
    exact hmem h
  · rw [spelledName_of_some hrest, (Element.names_rename? hel).mem_iff]
    exact List.mem_cons_self

/-! ## One element -/

/-- What one attribute spelled out keeps is kept by all of them. -/
theorem spellOut_induction {motive : Element → Prop} (h : motive el)
    (step : ∀ el name, motive el → motive (spellOutName el name)) : motive (spellOut el) := by
  have run (L : List String) (el : Element) (h : motive el) : motive (L.foldl spellOutName el) := by
    induction L generalizing el with
    | nil => exact h
    | cons name L ih => exact ih _ (step el name h)
  rw [spellOut_eq]
  exact run _ el h

/-- The tag stays. -/
theorem tag_spellOut : (spellOut el).tag = el.tag := by
  refine spellOut_induction (motive := (·.tag = el.tag)) rfl fun el' name h => ?_
  rcases spellOutName_cases el' name with ⟨heq, _⟩ | ⟨rest, _, hel⟩
  · rwa [heq]
  · exact (Element.tag_rename? hel).trans h

/-- Names stay distinct. -/
theorem distinct_spellOut (h : el.Distinct) : (spellOut el).Distinct := by
  refine spellOut_induction h fun el' name h => ?_
  rcases spellOutName_cases el' name with ⟨heq, _⟩ | ⟨rest, _, hel⟩
  · rwa [heq]
  · exact h.rename? hel

theorem attribute?_spellOut (h : Unbound other) : (spellOut el).attribute? other = el.attribute? other :=
  spellOut_induction (motive := (·.attribute? other = el.attribute? other)) rfl
    fun _ _ hel => (attribute?_spellOutName h).trans hel

theorem hasAttribute_spellOut (h : Unbound other) :
    (spellOut el).hasAttribute other = el.hasAttribute other := by
  rw [Element.hasAttribute_eq_isSome, attribute?_spellOut h, Element.hasAttribute_eq_isSome]

/-- Every name of the element is there in its long form. -/
theorem mem_names_spellOut (h : name ∈ names el.attributes) :
    spelledName name ∈ names (spellOut el).attributes := by
  -- a name that is no shorthand stays through all turns
  have stays (L : List String) (el : Element) {kept : String}
      (hkept : Text.afterStart? shorthand kept = none) (hmem : kept ∈ names el.attributes) :
      kept ∈ names (L.foldl spellOutName el).attributes := by
    induction L generalizing el with
    | nil => exact hmem
    | cons m L ih => exact ih _ (mem_names_spellOutName_of_ne hmem (.inr hkept))
  -- up to its own turn the name stands there as it is, and from then on as it is spelled out
  have run (L : List String) (el : Element) (hL : name ∈ L) (hmem : name ∈ names el.attributes) :
      spelledName name ∈ names (L.foldl spellOutName el).attributes := by
    induction L generalizing el with
    | nil => cases hL
    | cons m L ih =>
      rw [List.foldl_cons]
      by_cases hm : name = m
      · subst hm
        exact stays L _ (afterStart?_spelledName name) (mem_names_spellOutName_self hmem)
      · exact ih _ ((List.mem_cons.mp hL).resolve_left hm) (mem_names_spellOutName_of_ne hmem (.inl hm))
  rw [spellOut_eq]
  exact run _ el h h

/-- The attribute has its value, and its name unless that is shorthand which has been spelled out. -/
def RespelledAttribute (a a' : Attribute) : Prop :=
  a'.value = a.value ∧ (a'.name = a.name ∨ ∃ rest, a.name = shorthand ++ rest ∧ a'.name = bindStart ++ rest)

/-- Nothing but shorthand has been spelled out, each attribute in its place. -/
structure Respelled (el el' : Element) : Prop where
  tag : el'.tag = el.tag
  attributes : List.Forall₂ RespelledAttribute el.attributes el'.attributes

theorem Respelled.refl (el : Element) : Respelled el el where
  tag := rfl
  attributes := List.forall₂_same.mpr fun _ _ => ⟨rfl, .inl rfl⟩

/-- A name that has been spelled out does not begin like shorthand. -/
theorem bindStart_append_ne (rest rest' : String) : bindStart ++ rest ≠ shorthand ++ rest' := by
  intro heq
  have hshort := startsWith_bindStart rest
  rw [heq, startsWith_append] at hshort
  cases hshort

/-- Renaming one attribute is a step of respelling. -/
theorem respelled_relabel {rest : String} {A B : List Attribute} (h : List.Forall₂ RespelledAttribute A B) :
    List.Forall₂ RespelledAttribute A (Attribute.relabel (shorthand ++ rest) (bindStart ++ rest) B) := by
  induction h with
  | nil => exact .nil
  | @cons a b A B hab hAB ih =>
    rw [Attribute.relabel]
    split
    · next hname =>
      obtain ⟨hvalue, hb⟩ := hab
      refine .cons ⟨hvalue, .inr ⟨rest, ?_, rfl⟩⟩ hAB
      -- the name that is given up now was there from the beginning
      rcases hb with hsame | ⟨rest', -, hspelled⟩
      · rw [← hsame, hname]
      · exact absurd (hspelled.symm.trans hname) (bindStart_append_ne rest' rest)
    · exact .cons hab ih

/-- Spelling out gives a respelling: each attribute in its place, with its value, and at most its name changed. -/
theorem respelled_spellOut : Respelled el (spellOut el) := by
  refine spellOut_induction (.refl el) fun el' name h => ?_
  rcases spellOutName_cases el' name with ⟨heq, _⟩ | ⟨rest, hrest, hel⟩
  · rwa [heq]
  · refine ⟨(Element.tag_rename? hel).trans h.tag, ?_⟩
    rw [(Element.rename?_eq_some hel).2.2, eq_append_of_afterStart? hrest]
    exact respelled_relabel h.attributes

/-- What is shorthand still was there before. -/
theorem mem_names_of_mem_spellOut (h : name ∈ names (spellOut el).attributes)
    (hshort : Text.afterStart? shorthand name ≠ none) : name ∈ names el.attributes := by
  refine spellOut_induction (motive := fun el' => name ∈ names el'.attributes → name ∈ names el.attributes)
    (fun hname => hname) (fun el' other ih hname => ih ?_) h
  rcases spellOutName_cases el' other with ⟨heq, _⟩ | ⟨rest, _, hel⟩
  · rwa [heq] at hname
  · rcases List.mem_cons.mp ((Element.names_rename? hel).mem_iff.mp hname) with rfl | hname
    · exact absurd (afterStart?_eq_none_iff.mpr (startsWith_bindStart rest)) hshort
    · exact List.mem_of_mem_erase hname

/-- Shorthand that stays does so because the name it would get is taken, so that it stays again. -/
theorem spellOut_spellOut : spellOut (spellOut el) = spellOut el := by
  have stays (name : String) (hname : name ∈ names (spellOut el).attributes) :
      spellOutName (spellOut el) name = spellOut el := by
    cases hrest : Text.afterStart? shorthand name with
    | none => rw [spellOutName, hrest]
    | some rest =>
      have hold := mem_names_of_mem_spellOut hname (by rw [hrest]; exact Option.some_ne_none rest)
      have htaken := mem_names_spellOut hold
      rw [spelledName_of_some hrest] at htaken
      rw [spellOutName, hrest]
      show ((spellOut el).rename? name (bindStart ++ rest)).getD (spellOut el) = spellOut el
      rw [Element.rename?, if_pos (by rw [Element.hasAttribute_iff.mpr htaken, Bool.true_or])]
      rfl
  have run (L : List String) (hL : ∀ name ∈ L, name ∈ names (spellOut el).attributes) :
      L.foldl spellOutName (spellOut el) = spellOut el := by
    induction L with
    | nil => rfl
    | cons name L ih =>
      obtain ⟨hname, hL⟩ := List.forall_mem_cons.mp hL
      rw [List.foldl_cons, stays name hname, ih hL]
  rw [spellOut_eq, run _ fun _ hname => hname]

/-! ## All elements -/

theorem spellOutAll_sameFrame : page.SameFrame (spellOutAll page) := Page.foldl_mapElement_sameFrame

theorem spellOutAll_sameLinks : page.SameLinks (spellOutAll page) := Page.foldl_mapElement_sameLinks

theorem has_spellOutAll : (spellOutAll page).Has x ↔ page.Has x := Page.has_foldl_mapElement

theorem spellOutAll_wellFormed (h : page.WellFormed) : (spellOutAll page).WellFormed :=
  h.foldl_mapElement (fun _ => tag_spellOut) fun _ => distinct_spellOut

theorem kind?_spellOutAll (h : page.Linked) {e : NodeId} (hx : page.Above page.root e) :
    (spellOutAll page).kind? e = (page.kind? e).map (·.mapElement spellOut) := by
  rw [spellOutAll, h.descendants_eq_preorder, Page.kind?_foldl_mapElement h.nodup_preorder,
    if_pos (h.mem_preorder_iff.mpr hx)]

theorem kind?_spellOutAll_of_not_above (h : page.Linked) {e : NodeId} (hx : ¬ page.Above page.root e) :
    (spellOutAll page).kind? e = page.kind? e := by
  rw [spellOutAll, h.descendants_eq_preorder, Page.kind?_foldl_mapElement h.nodup_preorder,
    if_neg fun hmem => hx (h.mem_preorder_iff.mp hmem)]

end Extensions

end AmpTuner
