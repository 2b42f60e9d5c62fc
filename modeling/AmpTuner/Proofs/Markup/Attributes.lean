import AmpTuner.Markup.Element
import Mathlib.Data.List.Basic
import Mathlib.Data.List.Nodup

/-!
# Attribute lists

An attribute list is read by name. The lemmas here say what a name gives after each operation on an
element, and that the names of an element stay pairwise distinct: `Element.Distinct` is kept by every
operation, so that no later proof looks into a list.
-/

namespace AmpTuner.Markup

/-- The names in order. -/
def Attribute.names (attributes : List Attribute) : List String := attributes.map (·.name)

namespace Attribute

variable {name value other : String} {L : List Attribute}

theorem names_cons (a : Attribute) : names (a :: L) = a.name :: names L := rfl

/-- A name that is there keeps its place, and a new one comes last. -/
theorem names_put : names (put name value L)
    = if name ∈ names L then names L else names L ++ [name] := by
  induction L with
  | nil => simp [put, names]
  | cons a rest ih =>
    rw [put]
    by_cases ha : a.name = name
    · simp [names_cons, ha]
    · rw [if_neg ha, names_cons, names_cons, ih]
      by_cases hname : name ∈ names rest
      · simp [hname]
      · simp [hname, Ne.symm ha]

/-- An attribute of a new name is put behind the others. -/
theorem put_of_notMem (h : name ∉ names L) : put name value L = L ++ [⟨name, value⟩] := by
  induction L with
  | nil => rfl
  | cons a L ih =>
    obtain ⟨ha, hL⟩ : name ≠ a.name ∧ name ∉ names L := by simpa [names_cons] using h
    rw [put, if_neg (Ne.symm ha), ih hL, List.cons_append]

/-- The names after a write are those before and the written one. -/
theorem mem_names_put : other ∈ names (put name value L) ↔ other ∈ names L ∨ other = name := by
  rw [names_put]
  split
  · next h =>
    constructor
    · exact .inl
    · rintro (h' | rfl)
      · exact h'
      · exact h
  · simp

/-- Writing never makes a name stand twice. -/
theorem nodup_names_put (h : (names L).Nodup) : (names (put name value L)).Nodup := by
  rw [names_put]
  split
  · exact h
  · next hname => simpa [List.nodup_append] using ⟨h, fun a ha haname => hname (haname ▸ ha)⟩

/-- A write is read back, and no other name is touched. -/
theorem find?_put : ((put name value L).find? (·.name == other)).map (·.value)
    = if other = name then some value else (L.find? (·.name == other)).map (·.value) := by
  induction L with
  | nil =>
    by_cases h : other = name
    · simp [put, h]
    · simp [put, h, Ne.symm h]
  | cons a rest ih =>
    rw [put]
    by_cases ha : a.name = name
    · by_cases h : other = name
      · simp [ha, h]
      · have hne : ¬ name = other := Ne.symm h
        simp [ha, h, hne]
    · rw [if_neg ha, List.find?_cons, List.find?_cons]
      by_cases hother : a.name = other
      · have hne : other ≠ name := fun h => ha (hother.trans h)
        simp [hother, hne]
      · rw [beq_false_of_ne hother]
        exact ih

/-- Erasing takes away the first attribute of the name. -/
theorem names_eraseP : names (L.eraseP (·.name == name)) = (names L).erase name := by
  induction L with
  | nil => rfl
  | cons a rest ih =>
    by_cases ha : a.name = name
    · rw [List.eraseP_cons_of_pos (by simpa using ha), names_cons, ha, List.erase_cons_head]
    · rw [List.eraseP_cons_of_neg (by simpa using ha), names_cons, names_cons,
        List.erase_cons_tail (by simpa using ha), ih]

/-- Erasing one name does not touch another. -/
theorem find?_eraseP (hother : other ≠ name) :
    (L.eraseP (·.name == name)).find? (·.name == other) = L.find? (·.name == other) := by
  induction L with
  | nil => rfl
  | cons a rest ih =>
    by_cases ha : a.name = name
    · have hne : ¬ a.name = other := fun h => hother (h.symm.trans ha)
      rw [List.eraseP_cons_of_pos (by simpa using ha), List.find?_cons, beq_false_of_ne hne]
    · rw [List.eraseP_cons_of_neg (by simpa using ha), List.find?_cons, List.find?_cons, ih]

/-- Renaming exchanges one name for the other, whatever becomes of the order. -/
theorem names_relabel {old new : String} (h : old ∈ names L) :
    (names (relabel old new L)).Perm (new :: (names L).erase old) := by
  induction L with
  | nil => simp [names] at h
  | cons a rest ih =>
    rw [relabel]
    by_cases ha : a.name = old
    · rw [if_pos ha, names_cons, names_cons, ha, List.erase_cons_head]
    · have hrest : old ∈ names rest := (List.mem_cons.mp h).resolve_left (Ne.symm ha)
      rw [if_neg ha, names_cons, names_cons, List.erase_cons_tail (by simpa using ha)]
      exact ((ih hrest).cons a.name).trans (.swap ..)

/-- Renaming does not touch a third name. -/
theorem find?_relabel {old new : String} (hold : other ≠ old) (hnew : other ≠ new) :
    (relabel old new L).find? (·.name == other) = L.find? (·.name == other) := by
  induction L with
  | nil => rfl
  | cons a rest ih =>
    rw [relabel]
    by_cases ha : a.name = old
    · have hgone : ¬ a.name = other := fun h => hold (h.symm.trans ha)
      rw [if_pos ha, List.find?_cons, List.find?_cons, beq_false_of_ne hgone,
        beq_false_of_ne (Ne.symm hnew)]
    · rw [if_neg ha, List.find?_cons, List.find?_cons, ih]

/-! ### The first of each name -/

/-- Of the attributes with one name the first. -/
def firstOfEach (given : List Attribute) : List Attribute := given.eraseDupsBy fun a b => a.name == b.name

/-- An attribute is taken up behind the others, unless one of its name is there. -/
def takeUp (found : List Attribute) (a : Attribute) : List Attribute :=
  if a.name ∈ names found then found else found ++ [a]

/-- Taking up one after the other leaves the first of each name that was not there. -/
theorem foldl_takeUp (found given : List Attribute) :
    given.foldl takeUp found = found ++ firstOfEach (given.filter fun a => a.name ∉ names found) := by
  induction given generalizing found with
  | nil => rw [List.foldl_nil, List.filter_nil, firstOfEach, List.eraseDupsBy_nil, List.append_nil]
  | cons a given ih =>
    rw [List.foldl_cons, ih, takeUp]
    by_cases hfound : a.name ∈ names found
    · rw [if_pos hfound, List.filter_cons_of_neg (by simpa using hfound)]
    · have hrest : given.filter (fun b => b.name ∉ names (found ++ [a]))
          = (given.filter fun b => b.name ∉ names found).filter fun b => (b.name == a.name) = false := by
        rw [List.filter_filter]
        refine List.filter_congr fun b _ => ?_
        rw [names, List.map_append, ← names]
        simp [and_comm]
      rw [if_neg hfound, hrest, List.filter_cons_of_pos (by simpa using hfound), List.append_assoc, firstOfEach,
        firstOfEach, List.eraseDupsBy_cons, List.singleton_append]

theorem foldl_takeUp_nil (given : List Attribute) : given.foldl takeUp [] = firstOfEach given := by
  rw [foldl_takeUp, List.nil_append, List.filter_eq_self.mpr (by simp [names])]

end Attribute

namespace Element

open Attribute (names nodup_names_put find?_put find?_eraseP find?_relabel names_eraseP names_relabel)

variable {el : Element} {name value other : String}

/-- No attribute name is given twice. -/
def Distinct (el : Element) : Prop := (names el.attributes).Nodup

theorem hasAttribute_iff : el.hasAttribute name = true ↔ name ∈ names el.attributes := by
  simp [hasAttribute, names]

theorem hasAttribute_eq_isSome : el.hasAttribute name = (el.attribute? name).isSome := by
  rw [Bool.eq_iff_iff, attribute?, Option.isSome_map, List.find?_isSome]
  simp [hasAttribute]

/-! ## Setting -/

theorem tag_set : (el.set name value).tag = el.tag := rfl

theorem attribute?_set : (el.set name value).attribute? other
    = if other = name then some value else el.attribute? other :=
  find?_put

theorem attribute?_set_of_ne (h : other ≠ name) :
    (el.set name value).attribute? other = el.attribute? other := by
  rw [attribute?_set, if_neg h]

theorem hasAttribute_set :
    (el.set name value).hasAttribute other = (el.hasAttribute other || other == name) := by
  rw [hasAttribute_eq_isSome, attribute?_set, hasAttribute_eq_isSome]
  split <;> simp [*]

theorem hasAttribute_set_self : (el.set name value).hasAttribute name = true := by
  simp [hasAttribute_set]

theorem Distinct.set (h : el.Distinct) : (el.set name value).Distinct := nodup_names_put h

theorem tag_setAll (given : List (String × String)) : (el.setAll given).tag = el.tag := by
  rw [setAll]
  induction given generalizing el with
  | nil => rfl
  | cons a given ih => rw [List.foldl_cons, ih, tag_set]

theorem setAll_append (given more : List (String × String)) :
    el.setAll (given ++ more) = (el.setAll given).setAll more := List.foldl_append

/-- Writes do not touch an attribute that is not among them. -/
theorem attribute?_setAll_of_not_mem {given : List (String × String)} (h : other ∉ given.map (·.1)) :
    (el.setAll given).attribute? other = el.attribute? other := by
  rw [setAll]
  induction given generalizing el with
  | nil => rfl
  | cons a given ih =>
    rw [List.map_cons, List.mem_cons, not_or] at h
    rw [List.foldl_cons, ih h.2, attribute?_set_of_ne h.1]

/-- A round of writes keeps the names distinct. -/
theorem Distinct.setAll (h : el.Distinct) (given : List (String × String)) :
    (el.setAll given).Distinct := by
  rw [Element.setAll]
  induction given generalizing el with
  | nil => exact h
  | cons a given ih => exact ih h.set

theorem tag_make (tag : String) (given : List (String × String)) : (make tag given).tag = tag :=
  tag_setAll given

theorem distinct_make (tag : String) (given : List (String × String)) : (make tag given).Distinct :=
  @Distinct.setAll { tag } List.nodup_nil given

/-! ## Erasing -/

theorem attribute?_erase_of_ne (h : other ≠ name) :
    (el.erase name).attribute? other = el.attribute? other := by
  rw [attribute?, attribute?, erase, find?_eraseP h]

theorem hasAttribute_erase_of_ne (h : other ≠ name) :
    (el.erase name).hasAttribute other = el.hasAttribute other := by
  rw [hasAttribute_eq_isSome, attribute?_erase_of_ne h, hasAttribute_eq_isSome]

theorem attribute?_erase_self (h : el.Distinct) : (el.erase name).attribute? name = none := by
  rw [← Option.not_isSome_iff_eq_none, ← hasAttribute_eq_isSome, hasAttribute_iff, erase, names_eraseP]
  exact fun hmem => (h.mem_erase_iff.mp hmem).1 rfl

theorem Distinct.erase (h : el.Distinct) : (el.erase name).Distinct := by
  rw [Distinct, Element.erase, names_eraseP]
  exact List.Nodup.erase name h

/-! ## Renaming -/

theorem tag_rename? {old new : String} {el' : Element} (h : el.rename? old new = some el') :
    el'.tag = el.tag := by
  rw [rename?] at h
  split at h
  · cases h
  · rw [← Option.some.inj h]

/-- What a rename that is not refused starts from and comes to. -/
theorem rename?_eq_some {old new : String} {el' : Element} (h : el.rename? old new = some el') :
    new ∉ names el.attributes ∧ old ∈ names el.attributes
      ∧ el'.attributes = Attribute.relabel old new el.attributes := by
  rw [rename?] at h
  split at h
  · cases h
  · next hfree =>
    rw [← hasAttribute_iff, ← hasAttribute_iff, ← Option.some.inj h]
    simpa using hfree

/-- A renamed element has the new name for the old one, and all others. -/
theorem names_rename? {old new : String} {el' : Element} (h : el.rename? old new = some el') :
    (names el'.attributes).Perm (new :: (names el.attributes).erase old) := by
  obtain ⟨_, hold, hattributes⟩ := rename?_eq_some h
  rw [hattributes]
  exact names_relabel hold

/-- Renaming keeps the names distinct, since it fails where the new name is taken. -/
theorem Distinct.rename? (h : el.Distinct) {old new : String} {el' : Element}
    (hel' : el.rename? old new = some el') : el'.Distinct := by
  obtain ⟨hnew, _, _⟩ := rename?_eq_some hel'
  rw [Distinct, (names_rename? hel').nodup_iff, List.nodup_cons]
  exact ⟨fun hmem => hnew (List.mem_of_mem_erase hmem), List.Nodup.erase old h⟩

theorem attribute?_rename?_of_ne {old new : String} {el' : Element}
    (hel' : el.rename? old new = some el') (hold : other ≠ old) (hnew : other ≠ new) :
    el'.attribute? other = el.attribute? other := by
  rw [attribute?, (rename?_eq_some hel').2.2, find?_relabel hold hnew, attribute?]

end Element

end AmpTuner.Markup
