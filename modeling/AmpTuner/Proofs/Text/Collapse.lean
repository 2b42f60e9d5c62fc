import AmpTuner.Text.Blank
import Mathlib.Data.List.TakeWhile

/-!
# Runs of blanks

* **`Collapses`** says of two texts that the second is the first with each run of ASCII blanks replaced by one
  space. A run ends where something else begins.
* **`collapses_iff`**: that is what `collapse` computes with a flag for the character just before.
* **`Collapses.filter_eq`**, **`Collapses.self`** and **`Collapses.all_isBlank_iff`**: what is no ASCII blank
  stays, a collapsed text is left alone, and a text that is all white space stays so.
-/

namespace AmpTuner.Text

variable {s t : List Char} {c : Char}

/-- `t` is `s` with one space for each run of ASCII blanks. -/
inductive Collapses : List Char → List Char → Prop
  | nil : Collapses [] []
  | keep {c : Char} {s t : List Char} (hc : isAsciiBlank c = false) (hrest : Collapses s t) :
      Collapses (c :: s) (c :: t)
  | run {blanks s t : List Char} (hne : blanks ≠ []) (hblanks : ∀ c ∈ blanks, isAsciiBlank c = true)
      (hstop : ∀ c ∈ s.head?, isAsciiBlank c = false) (hrest : Collapses s t) : Collapses (blanks ++ s) (' ' :: t)

/-! ## What is computed -/

/-- Within a run the blanks that follow are dropped. -/
theorem collapseFrom_true (s : List Char) : collapseFrom true s = collapseFrom false (s.dropWhile isAsciiBlank) := by
  induction s with
  | nil => rfl
  | cons c s ih =>
    cases hc : isAsciiBlank c with
    | true => rw [collapseFrom, if_pos hc, if_pos rfl, ih, List.dropWhile_cons_of_pos hc]
    | false =>
      have hnot : ¬ isAsciiBlank c = true := by simp [hc]
      rw [List.dropWhile_cons_of_neg hnot, collapseFrom, collapseFrom, if_neg hnot, if_neg hnot]

/-- What the loop writes is the collapsed text. -/
theorem collapses_collapseFrom (s : List Char) : Collapses s (collapseFrom false s) := by
  induction hn : s.length using Nat.strong_induction_on generalizing s with
  | _ n ih =>
    cases s with
    | nil => exact .nil
    | cons c s =>
      rw [List.length_cons] at hn
      cases hc : isAsciiBlank c with
      | false =>
        rw [collapseFrom, if_neg (by simp [hc])]
        exact .keep hc (ih s.length (by omega) s rfl)
      | true =>
        -- the run takes the blanks behind the first one too
        have hshort := (List.dropWhile_sublist isAsciiBlank (l := s)).length_le
        have hrest := ih (s.dropWhile isAsciiBlank).length (by omega) _ rfl
        have hsplit : c :: s = (c :: s.takeWhile isAsciiBlank) ++ s.dropWhile isAsciiBlank := by
          rw [List.cons_append, List.takeWhile_append_dropWhile]
        rw [collapseFrom, if_pos hc, if_neg Bool.false_ne_true, collapseFrom_true, hsplit]
        refine .run (List.cons_ne_nil _ _) (List.forall_mem_cons.mpr ⟨hc, fun d hd => List.mem_takeWhile_imp hd⟩)
          (fun d hd => ?_) hrest
        have hstop := List.head?_dropWhile_not isAsciiBlank s
        rwa [Option.mem_def.mp hd] at hstop

/-- There is one collapsed text only. -/
theorem Collapses.eq_collapseFrom (h : Collapses s t) : t = collapseFrom false s := by
  induction h with
  | nil => rfl
  | keep hc _ ih => rw [collapseFrom, if_neg (by simp [hc]), ← ih]
  | @run blanks s t hne hblanks hstop _ ih =>
    obtain ⟨c, blanks, rfl⟩ := List.exists_cons_of_ne_nil hne
    obtain ⟨hc, hblanks⟩ := List.forall_mem_cons.mp hblanks
    have hdrop : (blanks ++ s).dropWhile isAsciiBlank = s := by
      rw [List.dropWhile_append_of_pos hblanks]
      cases s with
      | nil => rfl
      | cons d s => rw [List.dropWhile_cons_of_neg (by simp [hstop d rfl])]
    rw [List.cons_append, collapseFrom, if_pos hc, if_neg Bool.false_ne_true, collapseFrom_true, hdrop, ← ih]

theorem collapses_iff {content content' : String} :
    Collapses content.toList content'.toList ↔ content' = collapse content := by
  rw [← String.toList_inj, collapse, String.toList_ofList]
  exact ⟨Collapses.eq_collapseFrom, fun h => h ▸ collapses_collapseFrom _⟩

/-! ## What stays -/

namespace Collapses

/-- No character but blanks is lost, gained or moved. -/
theorem filter_eq (h : Collapses s t) : t.filter (!isAsciiBlank ·) = s.filter (!isAsciiBlank ·) := by
  induction h with
  | nil => rfl
  | keep hc _ ih => rw [List.filter_cons_of_pos (by simp [hc]), List.filter_cons_of_pos (by simp [hc]), ih]
  | run _ hblanks _ _ ih =>
    have hnone : List.filter (!isAsciiBlank ·) _ = [] := List.filter_eq_nil_iff.mpr (by simpa using hblanks)
    rw [List.filter_append, hnone, List.nil_append, List.filter_cons_of_neg (by decide), ih]

/-- A text that does not begin with a blank keeps its first character. -/
theorem head?_eq (h : Collapses s t) (hstop : ∀ c ∈ s.head?, isAsciiBlank c = false) : t.head? = s.head? := by
  cases h with
  | nil => rfl
  | keep _ _ => rfl
  | run hne hblanks _ _ =>
    obtain ⟨c, blanks, rfl⟩ := List.exists_cons_of_ne_nil hne
    have hc := hstop c rfl
    rw [hblanks c List.mem_cons_self] at hc
    cases hc

/-- There are no runs left. -/
theorem self (h : Collapses s t) : Collapses t t := by
  induction h with
  | nil => exact .nil
  | keep hc _ ih => exact .keep hc ih
  | run _ _ hstop hrest ih =>
    rw [← List.singleton_append]
    exact .run (List.cons_ne_nil _ _) (List.forall_mem_singleton.mpr rfl) (by rwa [hrest.head?_eq hstop]) ih

/-- A text is blank exactly if the collapsed one is. -/
theorem all_isBlank_iff (h : Collapses s t) : t.all isBlank = s.all isBlank := by
  induction h with
  | nil => rfl
  | keep _ _ ih => rw [List.all_cons, List.all_cons, ih]
  | run _ hblanks _ _ ih =>
    have hall : List.all _ isBlank = true :=
      List.all_eq_true.mpr fun c hc => isBlank_of_isAsciiBlank (hblanks c hc)
    rw [List.all_append, hall, List.all_cons, ih]
    rfl

end Collapses

theorem collapse_collapse (content : String) : collapse (collapse content) = collapse content :=
  (collapses_iff.mp (collapses_iff.mpr rfl : Collapses content.toList (collapse content).toList).self).symm

theorem isAllBlank_collapse (content : String) : isAllBlank (collapse content) = isAllBlank content :=
  (collapses_iff.mpr rfl : Collapses content.toList (collapse content).toList).all_isBlank_iff

end AmpTuner.Text
