import AmpTuner.Pass.Extensions
import Mathlib.Data.List.Basic
import Mathlib.Data.List.Nodup
import Mathlib.Tactic.Tauto

/-!
# Groups of scripts

Between taking the scripts out of the head and putting them back, the pass keeps them in groups, one
for each extension. The rest of the theory reads the groups in these ways:

* **`Holds`**: which nodes stand for an extension. Marking does not change it, adding a script adds
  one pair to it (`holds_addScript`).
* **`hasGroup`**: for which extensions there is a group. No group is empty (`Filled`), so that such an
  extension has a script (`Filled.exists_holds`).
* **`Marked`**: which extensions something refers to. What is marked is not dropped
  (`Marked.holds_dropUnused`).
* **`Partition`**: which scripts each group has, and in which order (`Partition.groupScripts`).
-/

namespace AmpTuner.Extensions

open Markup (Element)

variable {g : Group} {groups : List Group} {scripts : List (String × NodeId)} {name x : String} {node n : NodeId}
  {used : Bool}

/-- The node is a script of the extension. -/
def Holds (groups : List Group) (name : String) (n : NodeId) : Prop :=
  ∃ g ∈ groups, g.name = name ∧ n ∈ g.nodes

/-- The scripts of the extension, if it has any, are referred to. -/
def Marked (groups : List Group) (name : String) : Prop :=
  ∀ g ∈ groups, g.name = name → g.used = true

/-- No group is without a script. -/
def Filled (groups : List Group) : Prop := ∀ g ∈ groups, g.nodes ≠ []

theorem not_holds_nil : ¬ Holds [] x n := by simp [Holds]

theorem holds_cons : Holds (g :: groups) x n ↔ (g.name = x ∧ n ∈ g.nodes) ∨ Holds groups x n := by
  simp [Holds]

/-- The nodes of all groups. -/
def nodesOf (groups : List Group) : List NodeId := groups.flatMap (·.nodes)

theorem Holds.mem_nodesOf (h : Holds groups x n) : n ∈ nodesOf groups := by
  obtain ⟨g, hg, _, hn⟩ := h
  exact List.mem_flatMap.mpr ⟨g, hg, hn⟩

/-- The nodes of all groups are those that some group holds. -/
theorem mem_nodesOf_iff : n ∈ nodesOf groups ↔ ∃ x, Holds groups x n := by
  constructor
  · intro h
    obtain ⟨g, hg, hn⟩ := List.mem_flatMap.mp h
    exact ⟨g.name, g, hg, rfl, hn⟩
  · rintro ⟨x, h⟩
    exact h.mem_nodesOf

theorem hasGroup_iff : hasGroup groups x = true ↔ ∃ g ∈ groups, g.name = x := by
  simp [hasGroup]

theorem Holds.hasGroup (h : Holds groups x n) : hasGroup groups x = true := by
  obtain ⟨g, hg, hname, _⟩ := h
  exact hasGroup_iff.mpr ⟨g, hg, hname⟩

/-- In filled groups, a group holds some script. -/
theorem Filled.exists_holds (h : Filled groups) (hx : hasGroup groups x = true) :
    ∃ n, Holds groups x n := by
  obtain ⟨g, hg, hname⟩ := hasGroup_iff.mp hx
  obtain ⟨n, hn⟩ := List.exists_mem_of_ne_nil _ (h g hg)
  exact ⟨n, g, hg, hname, hn⟩

theorem marked_of_not_hasGroup (hx : hasGroup groups x = false) : Marked groups x := by
  intro g hg hname
  rw [hasGroup_iff.mpr ⟨g, hg, hname⟩] at hx
  cases hx

/-! ## Adding a script -/

/-- Groups hold what they held, and the added script under its name. -/
theorem holds_addScript :
    Holds (addScript name node used groups) x n ↔ Holds groups x n ∨ name = x ∧ n = node := by
  induction groups with
  | nil => simp [addScript, holds_cons, not_holds_nil]
  | cons g rest ih =>
    rw [addScript]
    split
    · next hname =>
      -- the script joins the group that there is
      rw [holds_cons, holds_cons, List.mem_append, List.mem_singleton, ← hname]
      tauto
    · rw [holds_cons, holds_cons, ih, or_assoc]

/-- There is a group for every name as before, and for the added one. -/
theorem hasGroup_addScript :
    hasGroup (addScript name node used groups) x = true ↔ hasGroup groups x = true ∨ name = x := by
  induction groups with
  | nil => simp [addScript, hasGroup]
  | cons g rest ih =>
    rw [addScript]
    split
    · next hname => simp only [hasGroup, List.any_cons, Bool.or_eq_true, beq_iff_eq, ← hname]; tauto
    · simp only [hasGroup, List.any_cons, Bool.or_eq_true] at ih ⊢
      rw [ih, or_assoc]

/-- A script of a new name passes over the groups in front. -/
theorem addScript_append (hname : hasGroup groups name = false) (rest : List Group) :
    addScript name node used (groups ++ rest) = groups ++ addScript name node used rest := by
  induction groups with
  | nil => rfl
  | cons g groups ih =>
    rw [hasGroup, List.any_cons, Bool.or_eq_false_iff, beq_eq_false_iff_ne] at hname
    rw [List.cons_append, addScript, if_neg hname.1, ih hname.2, List.cons_append]

/-- A script for an extension without a group comes last. -/
theorem addScript_of_not_hasGroup (hname : hasGroup groups name = false) :
    addScript name node used groups = groups ++ [⟨name, [node], used⟩] := by
  have happend : addScript name node used (groups ++ []) = groups ++ addScript name node used [] :=
    addScript_append hname []
  rwa [List.append_nil] at happend

/-- What holds of every group still does when a script is added, if it holds of a group with that script alone and of
every group that the script joins. -/
theorem forall_mem_addScript {Q : Group → Prop} (h : ∀ g ∈ groups, Q g) (hnew : Q ⟨name, [node], used⟩)
    (hjoined : ∀ g, g.name = name → Q g → Q { g with nodes := g.nodes ++ [node], used := g.used || used }) :
    ∀ g ∈ addScript name node used groups, Q g := by
  induction groups with
  | nil => simpa only [addScript, List.forall_mem_singleton] using hnew
  | cons g rest ih =>
    obtain ⟨hg, hrest⟩ := List.forall_mem_cons.mp h
    rw [addScript]
    split
    · next hname => exact List.forall_mem_cons.mpr ⟨hjoined g hname hg, hrest⟩
    · exact List.forall_mem_cons.mpr ⟨hg, ih hrest⟩

/-- A script that is referred to unmarks nothing. -/
theorem Marked.addScript (h : Marked groups x) : Marked (addScript name node true groups) x :=
  forall_mem_addScript h (fun _ => rfl) fun _ _ _ _ => Bool.or_true _

theorem Filled.addScript (h : Filled groups) : Filled (addScript name node used groups) :=
  forall_mem_addScript h (List.cons_ne_nil _ _) fun _ _ _ => List.append_ne_nil_of_right_ne_nil _ (List.cons_ne_nil _ _)

/-- The groups of the scripts of a head say of each script what it says of itself. -/
theorem holds_groupScripts :
    Holds (groupScripts scripts) x n ↔ (x, n) ∈ scripts := by
  have run (groups : List Group) :
      Holds (scripts.foldl (fun groups s => addScript s.1 s.2 false groups) groups) x n
        ↔ Holds groups x n ∨ (x, n) ∈ scripts := by
    induction scripts generalizing groups with
    | nil => simp
    | cons s scripts ih =>
      rw [List.foldl_cons, ih, holds_addScript, List.mem_cons, Prod.ext_iff, or_assoc,
        eq_comm (a := s.1)]
  rw [groupScripts, run]
  exact or_iff_right not_holds_nil

theorem filled_groupScripts (scripts : List (String × NodeId)) : Filled (groupScripts scripts) :=
  List.foldlRecOn scripts _ (by simp [Filled]) fun _ h _ _ => h.addScript

/-! ## Marking -/

/-- One group marked, if it is the extension's. -/
def mark (name : String) (g : Group) : Group := if g.name = name then { g with used := true } else g

theorem mark_name : (mark name g).name = g.name := by
  rw [mark]
  split <;> rfl

theorem mark_nodes : (mark name g).nodes = g.nodes := by
  rw [mark]
  split <;> rfl

theorem markUsed_eq : markUsed groups name = groups.map (mark name) := rfl

theorem holds_markUsed : Holds (markUsed groups name) x n ↔ Holds groups x n := by
  simp [Holds, markUsed_eq, mark_name, mark_nodes]

theorem hasGroup_markUsed : hasGroup (markUsed groups name) x = hasGroup groups x := by
  simp [hasGroup, markUsed_eq, Function.comp_def, mark_name]

theorem Filled.markUsed (h : Filled groups) : Filled (markUsed groups name) := by
  rw [markUsed_eq]
  exact List.forall_mem_map.mpr fun g hg => by rw [mark_nodes]; exact h g hg

/-- A mark stays when another is made. -/
theorem Marked.markUsed (h : Marked groups x) : Marked (markUsed groups name) x := by
  rw [markUsed_eq]
  refine List.forall_mem_map.mpr fun g hg hname => ?_
  rw [mark_name] at hname
  rw [mark]
  split
  · rfl
  · exact h g hg hname

/-- What is marked is marked. -/
theorem marked_markUsed_self : Marked (markUsed groups name) name := by
  rw [markUsed_eq]
  refine List.forall_mem_map.mpr fun g _ hname => ?_
  rw [mark_name] at hname
  rw [mark, if_pos hname]

/-- What marks at most keeps whatever marking keeps. -/
theorem requirements_groups {spec : Spec} {page : Page} {required : List String}
    {motive : List Group → Prop} (h : motive groups)
    (hmark : ∀ groups name, motive groups → motive (markUsed groups name)) :
    motive (requirements spec page required groups).2 := by
  rw [requirements]
  generalize (page.descendants page.root).filterMap page.element? = els
  induction els generalizing required groups with
  | nil => exact h
  | cons el els ih =>
    refine ih ?_
    split
    · exact hmark groups el.tag h
    · exact h

/-! ## Dropping -/

theorem mem_keptAlone_iff :
    x ∈ keptAlone groups ↔ ∃ g ∈ groups, (g.used = true ∨ (g.name, none) ∈ protectedExtensions) ∧ g.name = x := by
  rw [keptAlone, List.mem_map]
  simp only [List.mem_filter, Bool.or_eq_true, List.any_beq', List.contains_iff_mem, and_assoc]

/-- A group is needed if it is in use, or is protected and its companion stays. -/
theorem isNeeded_iff {kept : List String} {g : Group} : isNeeded kept g = true
    ↔ g.used = true ∨ ∃ companion, (g.name, companion) ∈ protectedExtensions ∧ ∀ c ∈ companion, c ∈ kept := by
  rw [isNeeded, Bool.or_eq_true, List.any_eq_true, Prod.exists]
  refine or_congr_right ⟨?_, ?_⟩
  · rintro ⟨name, companion, hp, hprotects⟩
    rw [Bool.and_eq_true, beq_iff_eq, Option.all_eq_true] at hprotects
    obtain ⟨rfl, hcompanion⟩ := hprotects
    exact ⟨companion, hp, fun c hc => List.contains_iff_mem.mp (hcompanion c hc)⟩
  · rintro ⟨companion, hp, hcompanion⟩
    refine ⟨g.name, companion, hp, ?_⟩
    rw [Bool.and_eq_true, beq_iff_eq, Option.all_eq_true]
    exact ⟨rfl, fun c hc => List.contains_iff_mem.mpr (hcompanion c hc)⟩

/-- What something refers to stays. -/
theorem Marked.holds_dropUnused (h : Marked groups x) (hn : Holds groups x n) :
    Holds (dropUnused groups) x n := by
  obtain ⟨g, hg, hname, hmem⟩ := hn
  refine ⟨g, List.mem_filter.mpr ⟨hg, ?_⟩, hname, hmem⟩
  rw [isNeeded, h g hg hname, Bool.true_or]

theorem holds_of_holds_dropUnused (h : Holds (dropUnused groups) x n) : Holds groups x n := by
  obtain ⟨g, hg, hname, hn⟩ := h
  exact ⟨g, (List.mem_filter.mp hg).1, hname, hn⟩

/-! ## What the groups hold -/

/-- The scripts of one extension. -/
def scriptsNamed (scripts : List (String × NodeId)) (name : String) : List NodeId :=
  (scripts.filter (·.1 == name)).map (·.2)

/-- Every extension has one group, of its scripts in their order. -/
structure Partition (scripts : List (String × NodeId)) (groups : List Group) : Prop where
  distinct : (groups.map (·.name)).Nodup
  nodes : ∀ g ∈ groups, g.nodes = scriptsNamed scripts g.name
  grouped : ∀ p ∈ scripts, hasGroup groups p.1 = true

/-- A name that is there keeps its place, and a new one comes last. -/
theorem names_addScript : (addScript name n used groups).map (·.name)
    = if name ∈ groups.map (·.name) then groups.map (·.name) else groups.map (·.name) ++ [name] := by
  induction groups with
  | nil => rfl
  | cons g rest ih =>
    rw [addScript]
    split
    · next hname => simp [hname]
    · next hname =>
      rw [List.map_cons, ih]
      simp only [List.map_cons, List.mem_cons, Ne.symm hname, false_or]
      split <;> rfl

/-- The group of the script has it at its end; the other groups are as they were. -/
theorem of_mem_addScript {g : Group} (hdistinct : (groups.map (·.name)).Nodup)
    (hg : g ∈ addScript name n used groups) :
    g.name ≠ name ∧ g ∈ groups
      ∨ g.name = name ∧ (∃ g' ∈ groups, g'.name = name ∧ g.nodes = g'.nodes ++ [n])
      ∨ g.name = name ∧ hasGroup groups name = false ∧ g.nodes = [n] := by
  induction groups with
  | nil =>
    rw [List.mem_singleton.mp hg]
    exact .inr (.inr ⟨rfl, rfl, rfl⟩)
  | cons first rest ih =>
    obtain ⟨hfirst, hrest⟩ := List.nodup_cons.mp (by simpa using hdistinct : (first.name :: rest.map (·.name)).Nodup)
    rw [addScript] at hg
    split at hg
    · next hname =>
      rcases List.mem_cons.mp hg with rfl | hg
      · exact .inr (.inl ⟨hname, first, List.mem_cons_self, hname, rfl⟩)
      · refine .inl ⟨fun heq => hfirst ?_, List.mem_cons_of_mem _ hg⟩
        rw [hname, ← heq]
        exact List.mem_map_of_mem hg
    · next hname =>
      rcases List.mem_cons.mp hg with rfl | hg
      · exact .inl ⟨hname, List.mem_cons_self⟩
      · rcases ih hrest hg with ⟨hne, hmem⟩ | ⟨heq, g', hmem, hname', hnodes⟩ | ⟨heq, hnone, hnodes⟩
        · exact .inl ⟨hne, List.mem_cons_of_mem _ hmem⟩
        · exact .inr (.inl ⟨heq, g', List.mem_cons_of_mem _ hmem, hname', hnodes⟩)
        · refine .inr (.inr ⟨heq, ?_, hnodes⟩)
          rw [hasGroup, List.any_cons, ← hasGroup, hnone]
          simpa using hname

namespace Partition

/-- Groups of scripts, and one more script. -/
theorem addScript (h : Partition scripts groups) (p : String × NodeId) :
    Partition (scripts ++ [p]) (addScript p.1 p.2 used groups) where
  distinct := by
    rw [names_addScript]
    split
    · exact h.distinct
    · next hnew =>
      refine List.nodup_append.mpr ⟨h.distinct, List.nodup_singleton _, ?_⟩
      rintro a ha b hb rfl
      exact hnew (List.mem_singleton.mp hb ▸ ha)
  nodes := by
    have hsame {name : String} (hne : name ≠ p.1) :
        scriptsNamed (scripts ++ [p]) name = scriptsNamed scripts name := by
      simp [scriptsNamed, List.filter_append, Ne.symm hne]
    have hown : scriptsNamed (scripts ++ [p]) p.1 = scriptsNamed scripts p.1 ++ [p.2] := by
      simp [scriptsNamed, List.filter_append]
    intro g hg
    rcases of_mem_addScript h.distinct hg with ⟨hne, hmem⟩ | ⟨heq, g', hmem, hname, hnodes⟩ | ⟨heq, hnone, hnodes⟩
    · rw [hsame hne, h.nodes g hmem]
    · rw [heq, hown, hnodes, h.nodes g' hmem, hname]
    -- without a group there was no script
    · have hempty : scriptsNamed scripts p.1 = [] := by
        rw [scriptsNamed, List.map_eq_nil_iff, List.filter_eq_nil_iff]
        intro q hq heq
        have hgrouped := h.grouped q hq
        rw [beq_iff_eq.mp heq, hnone] at hgrouped
        cases hgrouped
      rw [heq, hown, hempty, hnodes]
      rfl
  grouped := by
    intro q hq
    rw [hasGroup_addScript]
    rcases List.mem_append.mp hq with hq | hq
    · exact .inl (h.grouped q hq)
    · exact .inr (congrArg Prod.fst (List.mem_singleton.mp hq)).symm

/-- Marking keeps the partition. -/
theorem markUsed (h : Partition scripts groups) (name : String) : Partition scripts (markUsed groups name) where
  distinct := by
    have hnames : (Extensions.markUsed groups name).map (·.name) = groups.map (·.name) := by
      rw [markUsed_eq, List.map_map]
      exact List.map_congr_left fun g _ => mark_name
    rw [hnames]
    exact h.distinct
  nodes := by
    rw [markUsed_eq]
    exact List.forall_mem_map.mpr fun g hg => by rw [mark_nodes, mark_name, h.nodes g hg]
  grouped p hp := hasGroup_markUsed.trans (h.grouped p hp)

/-- One step for each script. -/
theorem groupScripts (scripts : List (String × NodeId)) : Partition scripts (groupScripts scripts) := by
  have run (todo done : List (String × NodeId)) (groups : List Group) (h : Partition done groups) :
      Partition (done ++ todo) (todo.foldl (fun groups s => Extensions.addScript s.1 s.2 false groups) groups) := by
    induction todo generalizing done groups with
    | nil => rwa [List.append_nil]
    | cons p todo ih =>
      have hstep : Partition (done ++ [p]) (Extensions.addScript p.1 p.2 false groups) := h.addScript p
      have hrest := ih (done ++ [p]) _ hstep
      rwa [List.append_assoc, List.singleton_append] at hrest
  exact run scripts [] [] ⟨List.nodup_nil, by simp, by simp⟩

variable (h : Partition scripts groups)

include h

/-- The nodes of the groups are those of the scripts. -/
theorem mem_nodesOf : n ∈ nodesOf groups ↔ ∃ name, (name, n) ∈ scripts := by
  rw [mem_nodesOf_iff]
  have hnamed {name : String} : n ∈ scriptsNamed scripts name ↔ (name, n) ∈ scripts := by
    simp [scriptsNamed]
  constructor
  · rintro ⟨name, g, hg, rfl, hn⟩
    rw [h.nodes g hg] at hn
    exact ⟨g.name, hnamed.mp hn⟩
  · rintro ⟨name, hn⟩
    obtain ⟨g, hg, hname⟩ := hasGroup_iff.mp (h.grouped _ hn)
    refine ⟨name, g, hg, hname, ?_⟩
    rw [h.nodes g hg, hname]
    exact hnamed.mpr hn

/-- No node stands in two groups, or twice in one. -/
theorem nodup_nodesOf (hscripts : (scripts.map (·.2)).Nodup) : (nodesOf groups).Nodup := by
  rw [nodesOf, List.nodup_flatMap]
  constructor
  · intro g hg
    rw [h.nodes g hg, scriptsNamed]
    exact hscripts.sublist (List.filter_sublist.map _)
  -- a script that were in two groups would be two scripts
  · have hpairwise : groups.Pairwise fun g g' => g.name ≠ g'.name := List.pairwise_map.mp h.distinct
    refine hpairwise.imp_of_mem fun {g g'} hg hg' hne n hn hn' => hne ?_
    change n ∈ g.nodes at hn
    change n ∈ g'.nodes at hn'
    rw [h.nodes g hg] at hn
    rw [h.nodes g' hg'] at hn'
    simp only [scriptsNamed, List.mem_map, List.mem_filter, beq_iff_eq] at hn hn'
    obtain ⟨p, ⟨hp, hname⟩, rfl⟩ := hn
    obtain ⟨p', ⟨hp', hname'⟩, heq⟩ := hn'
    rw [← hname, ← hname', List.inj_on_of_nodup_map hscripts hp' hp heq]

/-- The scripts of a name stand in their order. -/
theorem sublist_nodesOf (hname : hasGroup groups name = true) :
    (scriptsNamed scripts name).Sublist (nodesOf groups) := by
  obtain ⟨g, hg, rfl⟩ := hasGroup_iff.mp hname
  rw [← h.nodes g hg]
  obtain ⟨front, back, rfl⟩ := List.append_of_mem hg
  rw [nodesOf, List.flatMap_append, List.flatMap_cons]
  exact (List.sublist_append_left _ _).trans (List.sublist_append_right _ _)

end Partition

end AmpTuner.Extensions
