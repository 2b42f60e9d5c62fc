import AmpTuner.Proofs.HeadOrder.Slots
import AmpTuner.Proofs.Page.Loading

/-!
# The new order of the head

Once the children of the head have their slots, the pass writes them slot by slot, and in a slot by their
keys. The sort is stable, so that equal keys leave two children in the order they had.

## The architecture

* **`arrange`** is the new order for any slots, and **`arranged_eq`** says that the pass uses those of the
  slotting.
* **`perm_arrange`**, **`pairwise_rank`** and **`filter_arrange`** say all about it: the nodes are the same,
  the slots do not fall, and what stands in a slot is what has it, sorted.
* **`HasKey`** says which key a script has, and **`InKeyOrder`** what the order in a slot is.
* **`ordered_run`** is the result for the page: besides the children of the head, only the blank texts that
  stood there know that anything has happened.
-/

namespace AmpTuner.HeadOrder

open Markup (Element)
open Vocabulary (extensionName? isModuleScript)

variable {page : Page} {slot : NodeId → HeadSlot} {nodes L : List NodeId} {x y : NodeId} {s : HeadSlot}

/-! ## Keys -/

/-- The key is smaller: by its name, or by its variant under one name. -/
def Key.Before (a b : Key) : Prop := a.name < b.name ∨ a.name = b.name ∧ a.variant < b.variant

/-- The order of keys is transitive: names first, variants among equal names. -/
theorem Key.le_trans {a b c : Key} (hab : a.le b = true) (hbc : b.le c = true) : a.le c = true := by
  simp only [Key.le, Bool.or_eq_true, Bool.and_eq_true, decide_eq_true_eq, beq_iff_eq] at *
  rcases hab with hab | ⟨hab, hv⟩
  · rcases hbc with hbc | ⟨hbc, _⟩
    · exact .inl (String.lt_trans hab hbc)
    · exact .inl (hbc ▸ hab)
  · rcases hbc with hbc | ⟨hbc, hv'⟩
    · exact .inl (hab ▸ hbc)
    · exact .inr ⟨hab.trans hbc, Nat.le_trans hv hv'⟩

/-- Any two keys are in order one way or the other. -/
theorem Key.le_total (a b : Key) : (a.le b || b.le a) = true := by
  simp only [Key.le, Bool.or_eq_true, Bool.and_eq_true, decide_eq_true_eq, beq_iff_eq]
  by_cases hab : a.name < b.name
  · exact .inl (.inl hab)
  · by_cases hba : b.name < a.name
    · exact .inr (.inl hba)
    · have heq : a.name = b.name :=
        String.le_antisymm (String.not_lt.mp hba) (String.not_lt.mp hab)
      rcases Nat.le_total a.variant b.variant with hv | hv
      · exact .inl (.inr ⟨heq, hv⟩)
      · exact .inr (.inr ⟨heq.symm, hv⟩)

theorem Key.le_refl (a : Key) : a.le a = true := by
  simp [Key.le]

/-- What comes no later is the same key or comes strictly before. -/
theorem Key.before_or_eq {a b : Key} (h : a.le b = true) : a.Before b ∨ a = b := by
  simp only [Key.le, Bool.or_eq_true, Bool.and_eq_true, decide_eq_true_eq, beq_iff_eq] at h
  rcases h with h | ⟨hname, hvariant⟩
  · exact .inl (.inl h)
  · rcases Nat.lt_or_eq_of_le hvariant with hlt | heq
    · exact .inl (.inr ⟨hname, hlt⟩)
    · refine .inr ?_
      cases a; cases b
      exact congr (congrArg Key.mk hname) heq

/-- The key of a script: its name is that of the extension, or else the address, and modules come in front of what
is no module. -/
structure HasKey (el : Element) (key : Key) : Prop where
  extension : ∀ name, extensionName? el = some name → key.name = name
  source : extensionName? el = none → ∀ src, el.attribute? "src" = some src → key.name = src
  nameless : extensionName? el = none → el.attribute? "src" = none → key.name = ""
  module : el.attribute? "type" = some "module" → key.variant = 0
  plain : el.attribute? "type" ≠ some "module" → key.variant = 1

/-- Scripts are sorted by the key that they have. -/
theorem hasKey_iff {el : Element} {key : Key} : HasKey el key ↔ key = scriptKey el := by
  have hmodule : isModuleScript el = true ↔ el.attribute? "type" = some "module" := by rw [isModuleScript, beq_iff_eq]
  constructor
  · intro hkey
    have hname : key.name = (scriptKey el).name := by
      rw [scriptKey]
      cases hextension : extensionName? el with
      | some name => exact hkey.extension name hextension
      | none =>
        cases hsource : el.attribute? "src" with
        | some src => exact hkey.source hextension src hsource
        | none => exact hkey.nameless hextension hsource
    have hvariant : key.variant = (scriptKey el).variant := by
      rw [scriptKey]
      by_cases htype : el.attribute? "type" = some "module"
      · rw [hkey.module htype, if_pos (hmodule.mpr htype)]
      · rw [hkey.plain htype, if_neg (mt hmodule.mp htype)]
    cases key
    exact congr (congrArg Key.mk hname) hvariant
  · rintro rfl
    refine ⟨fun name hname => ?_, fun hnone src hsrc => ?_, fun hnone hsrc => ?_, fun htype => ?_, fun htype => ?_⟩
    · rw [scriptKey, hname, Option.some_or, Option.getD_some]
    · rw [scriptKey, hnone, hsrc, Option.none_or, Option.getD_some]
    · rw [scriptKey, hnone, hsrc, Option.none_or, Option.getD_none]
    · exact if_pos (hmodule.mpr htype)
    · exact if_neg (mt hmodule.mp htype)

/-! ## Who stands in front of whom -/

/-- Of two members of a list, one stands in front of the other. -/
theorem pair_sublist_or (hx : x ∈ L) (hy : y ∈ L) (hne : x ≠ y) :
    [x, y].Sublist L ∨ [y, x].Sublist L := by
  obtain ⟨before, after, rfl⟩ := List.append_of_mem hx
  rcases List.mem_append.mp hy with hy | hy
  · exact .inr ((List.singleton_sublist.mpr hy).append (List.singleton_sublist.mpr List.mem_cons_self))
  · have hmem : y ∈ after := (List.mem_cons.mp hy).resolve_left hne.symm
    exact .inl (((List.singleton_sublist.mpr hmem).cons_cons x).trans (List.sublist_append_right _ _))

/-- In a list without repetition, the other does not. -/
theorem not_pair_sublist_swap (hL : L.Nodup) (h : [x, y].Sublist L) : ¬ [y, x].Sublist L := by
  intro h'
  obtain ⟨before, after, rfl, hx, hy⟩ := List.cons_sublist_iff.mp h
  rw [List.singleton_sublist] at hy
  obtain ⟨-, -, hdisjoint⟩ := List.nodup_append.mp hL
  obtain ⟨before', after', heq, hy', hx'⟩ := List.cons_sublist_iff.mp h'
  rw [List.singleton_sublist] at hx'
  -- one of the two cuts lies in front of the other
  rcases List.append_eq_append_iff.mp heq with ⟨between, rfl, rfl⟩ | ⟨between, rfl, rfl⟩
  · exact hdisjoint x hx x (List.mem_append_right _ hx') rfl
  · exact hdisjoint y (List.mem_append_left _ hy') y hy rfl

/-- What stands in front of a member is read off the pairs. -/
theorem mem_before_iff {before after : List NodeId} (h : (before ++ x :: after).Nodup) :
    y ∈ before ↔ [y, x].Sublist (before ++ x :: after) := by
  constructor
  · intro hy
    exact (List.singleton_sublist.mpr hy).append (List.singleton_sublist.mpr List.mem_cons_self)
  · intro hyx
    by_contra hy
    have hmem : y ∈ before ++ x :: after := hyx.subset List.mem_cons_self
    have hne : y ≠ x := fun heq => by simpa [heq] using hyx.nodup h
    have hafter : y ∈ after :=
      (List.mem_cons.mp ((List.mem_append.mp hmem).resolve_left hy)).resolve_left hne
    refine not_pair_sublist_swap h hyx ?_
    exact ((List.singleton_sublist.mpr hafter).cons_cons x).trans (List.sublist_append_right _ _)

/-- What a member stands in front of comes behind it. -/
theorem mem_after_of_pair_sublist {before after : List NodeId} (h : (before ++ x :: after).Nodup)
    (hxy : [x, y].Sublist (before ++ x :: after)) : y ∈ after := by
  have hmem : y ∈ before ++ x :: after := hxy.subset (by simp)
  have hne : x ≠ y := fun heq => by simpa [heq] using hxy.nodup h
  have hbefore : y ∉ before := fun hy => not_pair_sublist_swap h hxy ((mem_before_iff h).mp hy)
  exact (List.mem_cons.mp ((List.mem_append.mp hmem).resolve_left hbefore)).resolve_left hne.symm

/-- A list without repetition has one member at most if all its members are equal. -/
theorem length_le_one_iff (hL : L.Nodup) : L.length ≤ 1 ↔ ∀ x ∈ L, ∀ y ∈ L, x = y := by
  match L with
  | [] => simp
  | [z] => simp
  | z :: w :: rest =>
    have hne : z ≠ w := fun heq => (List.nodup_cons.mp hL).1 (heq ▸ List.mem_cons_self)
    refine iff_of_false (by simp) fun h => hne (h z ?_ w ?_)
    · exact List.mem_cons_self
    · exact List.mem_cons_of_mem _ List.mem_cons_self

/-! ## Arranging -/

/-- The order of nodes by their keys. -/
def keyLe (page : Page) (x y : NodeId) : Bool := (keyOf page x).le (keyOf page y)

theorem keyLe_trans (x y z : NodeId) (hxy : keyLe page x y = true) (hyz : keyLe page y z = true) :
    keyLe page x z = true :=
  Key.le_trans hxy hyz

theorem keyLe_total (x y : NodeId) : (keyLe page x y || keyLe page y x) = true :=
  Key.le_total _ _

/-- The nodes of a slot in their final order. -/
def inSlot (page : Page) (slot : NodeId → HeadSlot) (nodes : List NodeId) (s : HeadSlot) : List NodeId :=
  (nodes.filter (slot · == s)).mergeSort (keyLe page)

/-- The nodes in the order of their slots. -/
def arrange (page : Page) (slot : NodeId → HeadSlot) (nodes : List NodeId) : List NodeId :=
  HeadSlot.all.flatMap (inSlot page slot nodes)

theorem mem_inSlot : x ∈ inSlot page slot nodes s ↔ x ∈ nodes ∧ slot x = s := by
  rw [inSlot, List.mem_mergeSort, List.mem_filter, beq_iff_eq]

theorem mem_arrange : x ∈ arrange page slot nodes ↔ x ∈ nodes := by
  simp only [arrange, List.mem_flatMap, mem_inSlot]
  exact ⟨fun ⟨_, _, hx, _⟩ => hx, fun hx => ⟨slot x, HeadSlot.mem_all _, hx, rfl⟩⟩

/-- Arranging repeats no node. -/
theorem nodup_arrange (h : nodes.Nodup) : (arrange page slot nodes).Nodup := by
  rw [arrange, List.nodup_flatMap]
  constructor
  · intro s _
    rw [inSlot, (List.mergeSort_perm _ _).nodup_iff]
    exact h.filter _
  -- a node has one slot
  · refine HeadSlot.pairwise_all.imp fun {s t} hlt x hx hx' => ?_
    rw [mem_inSlot] at hx hx'
    rw [← hx.2, ← hx'.2] at hlt
    exact Nat.lt_irrefl _ hlt

theorem perm_arrange (h : nodes.Nodup) : (arrange page slot nodes).Perm nodes :=
  (List.perm_ext_iff_of_nodup (nodup_arrange h) h).mpr fun _ => mem_arrange

/-- Slots follow each other. -/
theorem pairwise_rank : (arrange page slot nodes).Pairwise fun x y => (slot x).rank ≤ (slot y).rank := by
  rw [arrange, List.pairwise_flatMap]
  constructor
  · intro s _
    refine List.pairwise_of_forall_mem_list fun x hx y hy => ?_
    exact Nat.le_of_eq (by rw [(mem_inSlot.mp hx).2, (mem_inSlot.mp hy).2])
  · refine HeadSlot.pairwise_all.imp fun {s t} hlt x hx y hy => ?_
    rw [(mem_inSlot.mp hx).2, (mem_inSlot.mp hy).2]
    exact Nat.le_of_lt hlt

theorem flatMap_all_ite (s : HeadSlot) (L : List NodeId) :
    (HeadSlot.all.flatMap fun t => if t = s then L else []) = L := by
  cases s <;> simp [HeadSlot.all]

/-- What has a slot stands there. -/
theorem filter_arrange (s : HeadSlot) :
    (arrange page slot nodes).filter (slot · == s) = inSlot page slot nodes s := by
  have hslot (t : HeadSlot) : (inSlot page slot nodes t).filter (slot · == s)
      = if t = s then inSlot page slot nodes s else [] := by
    split
    · next heq =>
      rw [heq]
      exact List.filter_eq_self.mpr fun x hx => beq_iff_eq.mpr (mem_inSlot.mp hx).2
    · next hne =>
      refine List.filter_eq_nil_iff.mpr fun x hx hxs => hne ?_
      rw [← (mem_inSlot.mp hx).2]
      exact beq_iff_eq.mp hxs
  rw [arrange, List.filter_flatMap, List.flatMap_congr fun t _ => hslot t, flatMap_all_ite]

theorem pairwise_inSlot : (inSlot page slot nodes s).Pairwise (keyLe page · · = true) :=
  List.pairwise_mergeSort keyLe_trans keyLe_total _

/-- Of two nodes with one key, the one that was in front stays there. -/
theorem pair_sublist_of_inSlot (h : nodes.Nodup) (hxy : [x, y].Sublist (inSlot page slot nodes s))
    (hkey : keyOf page x = keyOf page y) : [x, y].Sublist nodes := by
  have hx := mem_inSlot.mp (hxy.subset (by simp : x ∈ [x, y]))
  have hy := mem_inSlot.mp (hxy.subset (by simp : y ∈ [x, y]))
  have hnodup : (nodes.filter (slot · == s)).Nodup := h.filter _
  have hsorted : (inSlot page slot nodes s).Nodup := by
    rwa [inSlot, (List.mergeSort_perm _ _).nodup_iff]
  have hne : x ≠ y := fun heq => by simpa [heq] using hxy.nodup hsorted
  have hfilter {z : NodeId} (hz : z ∈ nodes ∧ slot z = s) : z ∈ nodes.filter (slot · == s) :=
    List.mem_filter.mpr ⟨hz.1, beq_iff_eq.mpr hz.2⟩
  rcases pair_sublist_or (hfilter hx) (hfilter hy) hne with hsub | hsub
  · exact hsub.trans List.filter_sublist
  -- the sort would have kept the other order as well
  · have hle : keyLe page y x = true := by
      rw [keyLe, hkey]
      exact Key.le_refl _
    exact absurd (List.pair_sublist_mergeSort keyLe_trans keyLe_total hle hsub)
      (not_pair_sublist_swap hsorted hxy)

/-! ## The arrangement of the pass -/

/-- The placements of a slot are its nodes, sorted. -/
theorem ofSlot_placements : ofSlot (placements page slot nodes) s
    = inSlot page slot (visible page nodes) s := by
  have hfilter : (placements page slot nodes).filter (·.slot == s)
      = ((visible page nodes).filter (slot · == s)).map (placement page slot) := by
    rw [placements, List.filter_map]
    rfl
  have hsort : (((visible page nodes).filter (slot · == s)).map (placement page slot)).mergeSort
        (fun a b => a.key.le b.key)
      = (((visible page nodes).filter (slot · == s)).mergeSort (keyLe page)).map (placement page slot) :=
    (List.map_mergeSort (f := placement page slot) fun _ _ _ _ => rfl).symm
  rw [ofSlot, inSlot, hfilter, hsort, List.map_map]
  exact List.map_id _

/-- The pass writes the children by the slots of the rule. -/
theorem arranged_eq (h : IsSlotting page (page.children page.head) slot)
    (hhas : ∀ x ∈ page.children page.head, page.Has x) :
    arranged page = arrange page slot (visible page (page.children page.head)) := by
  rw [arranged, h.foldl_place hhas, arrange]
  exact List.flatMap_congr fun s _ => ofSlot_placements

/-! ## The pass -/

theorem run_sameFrame : page.SameFrame (run page) :=
  (Page.detachAll_sameFrame (page.children page.head)).trans Page.appendAll_sameFrame

theorem kind?_run : (run page).kind? x = page.kind? x := by
  rw [run, Page.kind?_appendAll, Page.kind?_detachAll]

theorem has_run : (run page).Has x ↔ page.Has x := Page.has_congr kind?_run

section Linked

variable (h : page.Linked)

include h

/-- The loop gives the children their slots, by the rule. -/
theorem exists_slotting : ∃ slot, IsSlotting page (page.children page.head) slot ∧
    arranged page = arrange page slot (visible page (page.children page.head)) := by
  obtain ⟨slot, hslot⟩ : ∃ slot, IsSlotting page (page.children page.head) slot :=
    exists_isSlotting (h.nodup page.head)
  exact ⟨slot, hslot, arranged_eq hslot fun x hx => h.has_child hx⟩

theorem nodup_visible : (visible page (page.children page.head)).Nodup :=
  (h.nodup page.head).filter _

theorem nodup_arranged : (arranged page).Nodup := by
  obtain ⟨slot, _, heq⟩ := exists_slotting h
  rw [heq]
  exact nodup_arrange (nodup_visible h)

theorem mem_arranged : x ∈ arranged page ↔ x ∈ page.children page.head ∧ isBlankText page x = false := by
  obtain ⟨slot, _, heq⟩ := exists_slotting h
  rw [heq, mem_arrange, visible, List.mem_filter, Bool.not_eq_true']

/-- The head gets the new order, and all other children stay. -/
theorem children_run (hhead : page.Has page.head) :
    (run page).children x = if x = page.head then arranged page else page.children x := by
  have hdetached : ∀ n ∈ arranged page, (page.detachAll (page.children page.head)).parent? n = none := by
    intro n hn
    rw [Page.parent?_detachAll, if_pos ((mem_arranged h).mp hn).1]
  rw [run, Page.children_appendAll ((Page.has_detachAll _).mpr hhead) (nodup_arranged h) hdetached,
    h.children_detachAll_children]
  split <;> simp

theorem children_head_run (hhead : page.Has page.head)
    (hslot : IsSlotting page (page.children page.head) slot) :
    (run page).children page.head = arrange page slot (visible page (page.children page.head)) := by
  rw [children_run h hhead, if_pos rfl, arranged_eq hslot fun x hx => h.has_child hx]

/-- Only the blank texts are not put back. -/
theorem parent?_run : (run page).parent? x
    = if x ∈ page.children page.head ∧ isBlankText page x = true then none else page.parent? x := by
  have hhas : ∀ n ∈ arranged page, (page.detachAll (page.children page.head)).Has n := fun n hn =>
    (Page.has_detachAll _).mpr (h.has_child ((mem_arranged h).mp hn).1)
  rw [run, Page.parent?_appendAll hhas, Page.parent?_detachAll]
  by_cases hx : x ∈ page.children page.head
  · have hparent := (h.mem_children_iff _ _).mp hx
    cases hblank : isBlankText page x <;> simp [mem_arranged h, hx, hblank, hparent]
  · simp [mem_arranged h, hx]

/-- The pass keeps the links of the page in agreement. -/
theorem run_linked (hhead : page.Has page.head) : (run page).Linked where
  mem_children_iff p c := by
    rw [children_run h hhead, parent?_run h]
    by_cases hc : c ∈ page.children page.head
    · have hparent := (h.mem_children_iff _ _).mp hc
      by_cases hp : p = page.head
      · cases hblank : isBlankText page c <;> simp [hp, hc, hblank, hparent, mem_arranged h]
      · rw [if_neg hp, h.mem_children_iff, hparent]
        split <;> simp [Ne.symm hp]
    · by_cases hp : p = page.head
      · rw [hp, if_pos rfl, if_neg (by simp [hc]), mem_arranged h, ← h.mem_children_iff]
        simp [hc]
      · rw [if_neg hp, if_neg (by simp [hc]), h.mem_children_iff]
  nodup p := by
    rw [children_run h hhead]
    split
    · exact nodup_arranged h
    · exact h.nodup p
  acyclic x hx := by
    refine h.acyclic x (hx.mono fun d p hp => ?_)
    rw [parent?_run h] at hp
    split at hp
    · cases hp
    · exact hp

/-- The order among the scripts of a slot: by their keys, and as they stood where the keys agree. -/
def InKeyOrder (page : Page) (nodes : List NodeId) (x y : NodeId) : Prop :=
  ∃ el el' key key', page.element? x = some el ∧ page.element? y = some el' ∧ HasKey el key ∧ HasKey el' key'
    ∧ (key.Before key' ∨ key = key' ∧ [x, y].Sublist nodes)

omit h in
/-- A sorted slot holds scripts in their order. -/
theorem pairwise_inKeyOrder (h : IsSlotting page nodes slot) (hnodup : nodes.Nodup)
    (hs : s.isSorted = true) :
    (inSlot page slot (visible page nodes) s).Pairwise (InKeyOrder page nodes) := by
  have key {z : NodeId} (hz : z ∈ inSlot page slot (visible page nodes) s) :
      ∃ el, page.element? z = some el ∧ keyOf page z = scriptKey el := by
    obtain ⟨hz, hslot⟩ := mem_inSlot.mp hz
    obtain ⟨el, afterCustom, hel, hasked⟩ :=
      h.asked (List.mem_filter.mp hz).1 (hslot ▸ (HeadSlot.ne_of_isSorted hs).2)
    exact ⟨el, hel, keyOf_of_isSorted hel (by rw [hasked, hslot]; exact hs)⟩
  rw [List.pairwise_iff_forall_sublist]
  intro x y hxy
  obtain ⟨el, hel, hkeyX⟩ := key (hxy.subset (by simp : x ∈ [x, y]))
  obtain ⟨el', hel', hkeyY⟩ := key (hxy.subset (by simp : y ∈ [x, y]))
  refine ⟨el, el', _, _, hel, hel', hasKey_iff.mpr rfl, hasKey_iff.mpr rfl, ?_⟩
  have hle : keyLe page x y = true := List.pairwise_iff_forall_sublist.mp pairwise_inSlot hxy
  rw [keyLe, hkeyX, hkeyY] at hle
  refine (Key.before_or_eq hle).imp_right fun heq => ⟨heq, ?_⟩
  exact (pair_sublist_of_inSlot (hnodup.filter _) hxy (by rw [hkeyX, hkeyY, heq])).trans
    List.filter_sublist

/-- What becomes of a page whose head children have these slots. -/
structure Ordered (page : Page) (slot : NodeId → HeadSlot) (page' : Page) : Prop where
  nodup : (page'.children page.head).Nodup
  perm : (page'.children page.head).Perm (visible page (page.children page.head))
  rank_le : (page'.children page.head).Pairwise fun x y => (slot x).rank ≤ (slot y).rank
  single : ∀ s, s.isSingle = true → (page'.children page.head).countP (slot · == s) ≤ 1
  sorted : ∀ s, s.isSorted = true → ((page'.children page.head).filter (slot · == s)).Pairwise
    (InKeyOrder page (page.children page.head))
  frame : page.SameFrame page'
  kind? : ∀ x, page'.kind? x = page.kind? x
  children : ∀ x, x ≠ page.head → page'.children x = page.children x
  parent? : ∀ x, page'.parent? x
    = if x ∈ page.children page.head ∧ isBlankText page x = true then none else page.parent? x

/-- The pass puts the children of the head into their slots, sorts the scripts, and changes nothing
else. -/
theorem ordered_run (hhead : page.Has page.head) :
    (∃ slot, IsSlotting page (page.children page.head) slot)
      ∧ ∀ slot, IsSlotting page (page.children page.head) slot → Ordered page slot (run page) := by
  refine ⟨exists_isSlotting (h.nodup page.head), fun slot hslot => ?_⟩
  have hchildren : (run page).children page.head
      = arrange page slot (visible page (page.children page.head)) := by
    rw [children_run h hhead, if_pos rfl, arranged_eq hslot fun x hx => h.has_child hx]
  have hnodup := nodup_visible h
  refine
    { nodup := hchildren ▸ nodup_arrange hnodup
      perm := hchildren ▸ perm_arrange hnodup
      rank_le := hchildren ▸ pairwise_rank
      single := ?_
      sorted := ?_
      frame := run_sameFrame
      kind? := fun x => kind?_run
      children := fun x hx => by rw [children_run h hhead, if_neg hx]
      parent? := fun x => parent?_run h }
  · intro s hs
    rw [hchildren, List.countP_eq_length_filter, filter_arrange, inSlot, List.length_mergeSort,
      length_le_one_iff (hnodup.filter _)]
    -- two children of one slot would be the same
    intro x hx y hy
    simp only [List.mem_filter, beq_iff_eq, visible] at hx hy
    exact hslot.eq_of_isSingle hx.1.1 hy.1.1 (hx.2.trans hy.2.symm) (hx.2 ▸ hs)
  · intro s hs
    rw [hchildren, filter_arrange]
    exact pairwise_inKeyOrder hslot (h.nodup page.head) hs

end Linked

/-- A head with something for every rule: blank text, a second stylesheet, a second runtime, extensions
out of order, and a style sheet behind the custom one. -/
def crowdedDocument : Markup.Document :=
  ⟨none, [.element ⟨"head", []⟩
    [.text " ",
      .element ⟨"script", [⟨"custom-element", "amp-list"⟩]⟩ [],
      .element ⟨"style", [⟨"amp-custom", ""⟩]⟩ [],
      .element ⟨"link", [⟨"rel", "stylesheet"⟩, ⟨"href", "late.css"⟩]⟩ [],
      .element ⟨"script", [⟨"src", "/v0.js"⟩]⟩ [],
      .element ⟨"style", [⟨"amp-custom", ""⟩]⟩ [],
      .element ⟨"script", [⟨"custom-element", "amp-bind"⟩]⟩ [],
      .element ⟨"script", [⟨"src", "/again/v0.js"⟩]⟩ [],
      .element ⟨"meta", [⟨"charset", "utf-8"⟩]⟩ []]]⟩

theorem ordered_crowdedDocument :
    let page := Page.ofDocument crowdedDocument
    page.Linked ∧ page.Has page.head
      ∧ (∃ slot, IsSlotting page (page.children page.head) slot)
      ∧ ∀ slot, IsSlotting page (page.children page.head) slot → Ordered page slot (run page) := by
  have h := Page.ofDocument_wellFormed crowdedDocument
  exact ⟨h.linked, h.has_head, ordered_run h.linked h.has_head⟩

end AmpTuner.HeadOrder
