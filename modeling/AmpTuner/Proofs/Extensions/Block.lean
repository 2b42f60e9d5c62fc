import AmpTuner.Proofs.Extensions.Imports
import AmpTuner.Proofs.Page.Upkeep
import Mathlib.Data.List.Find

/-!
# The block

What goes back into the head is inserted there node by node, and ends up in one block behind an anchor.

* **`placeBlock`** puts a block behind a mark and leaves all else in place. **`children_insertBlock`**: that is
  what comes of inserting the nodes of a block one behind the other.
* **`anchorAmong`** is the anchor among the children that stay; how a viewport is recognised is left open.
* **`children_run`** and **`parent?_run`**: where everything is after the pass.
-/

namespace AmpTuner.Extensions

open Markup (Element)

variable {s : Settings.Extensions} {spec : Spec} {page page' : Page} {block front back L : List NodeId}
  {n m a x : NodeId}

/-! ## A block behind a mark -/

/-- The block behind the mark, or in front of all nodes when there is no mark. -/
def placeBlock (block : List NodeId) : Option NodeId → List NodeId → List NodeId
  | none, L => block ++ L
  | some mark, L => L.flatMap fun n => if n = mark then n :: block else [n]

/-- The block stands right behind the mark. -/
theorem placeBlock_of_split (hnodup : (front ++ a :: back).Nodup) :
    placeBlock block (some a) (front ++ a :: back) = front ++ a :: (block ++ back) := by
  have keep {L : List NodeId} (hL : a ∉ L) : (L.flatMap fun n => if n = a then n :: block else [n]) = L := by
    refine (List.flatMap_congr fun n hn => if_neg ?_).trans (List.flatMap_singleton' L)
    rintro rfl
    exact hL hn
  have hfront : a ∉ front := not_mem_front_of_nodup hnodup
  have hback : a ∉ back := (List.nodup_cons.mp (List.nodup_append.mp hnodup).2.1).1
  rw [placeBlock, List.flatMap_append, List.flatMap_cons, keep hfront, keep hback, if_pos rfl, List.cons_append]

/-- An empty block leaves the children as they are. -/
theorem placeBlock_nil {anchor : Option NodeId} : placeBlock [] anchor L = L := by
  cases anchor with
  | none => rfl
  | some a =>
    refine (List.flatMap_congr fun n _ => ?_).trans (List.flatMap_singleton' L)
    split <;> rfl

/-- A block that leaves the children as they are is empty. -/
theorem eq_nil_of_placeBlock {anchor : Option NodeId} (hnodup : L.Nodup) (hanchor : ∀ a ∈ anchor, a ∈ L)
    (heq : placeBlock block anchor L = L) : block = [] := by
  cases anchor with
  | none => exact List.append_left_eq_self.mp heq
  | some a =>
    obtain ⟨front, back, rfl⟩ := List.append_of_mem (hanchor a rfl)
    have hlength := congrArg List.length heq
    rw [placeBlock_of_split hnodup] at hlength
    simp only [List.length_append, List.length_cons] at hlength
    exact List.length_eq_zero_iff.mp (by omega)

/-- Where the block begins, the mark can be read off. -/
theorem getLast?_takeWhile_placeBlock (hnodup : L.Nodup) (ha : a ∈ L) (hblock : block ≠ [])
    (hfree : ∀ n ∈ block, n ∉ L) : ((placeBlock block (some a) L).takeWhile (· ∈ L)).getLast? = some a := by
  obtain ⟨front, back, hsplit⟩ := List.append_of_mem ha
  obtain ⟨b, block, rfl⟩ := List.exists_cons_of_ne_nil hblock
  have hfront : ∀ n ∈ front ++ [a], decide (n ∈ L) = true := by
    intro n hn
    rw [decide_eq_true_eq, hsplit, List.append_cons]
    exact List.mem_append_left back hn
  have hb : ¬ decide (b ∈ L) = true := by simpa using hfree b List.mem_cons_self
  have hplaced : placeBlock (b :: block) (some a) L = (front ++ [a]) ++ b :: (block ++ back) := by
    rw [hsplit, placeBlock_of_split (hsplit ▸ hnodup), List.append_cons, List.cons_append]
  rw [hplaced, List.takeWhile_append_of_pos hfront,
    List.takeWhile_cons_of_neg (p := fun n => decide (n ∈ L)) hb, List.append_nil, List.getLast?_concat]

/-- A block that is not empty stands behind one mark only. -/
theorem placeBlock_inj {block' : List NodeId} {b : NodeId} (hnodup : L.Nodup) (ha : a ∈ L) (hb : b ∈ L)
    (hblock : block ≠ []) (hfree : ∀ n ∈ block, n ∉ L) (hfree' : ∀ n ∈ block', n ∉ L)
    (heq : placeBlock block (some a) L = placeBlock block' (some b) L) : a = b := by
  have hblock' : block' ≠ [] := by
    rintro rfl
    rw [placeBlock_nil] at heq
    exact hblock (eq_nil_of_placeBlock hnodup (by simpa using ha) heq)
  have hlast := getLast?_takeWhile_placeBlock hnodup ha hblock hfree
  rw [heq, getLast?_takeWhile_placeBlock hnodup hb hblock' hfree'] at hlast
  exact (Option.some.inj hlast).symm

/-- Wherever the block stands, it stands together. -/
theorem exists_placeBlock {anchor : Option NodeId} (hnodup : L.Nodup) (hanchor : ∀ a ∈ anchor, a ∈ L) :
    ∃ front back, L = front ++ back ∧ placeBlock block anchor L = front ++ (block ++ back) := by
  cases anchor with
  | none => exact ⟨[], L, rfl, rfl⟩
  | some a =>
    obtain ⟨front, back, rfl⟩ := List.append_of_mem (hanchor a rfl)
    exact ⟨front ++ [a], back, List.append_cons front a back,
      (placeBlock_of_split hnodup).trans (List.append_cons front a _)⟩

/-! ## Inserting -/

/-- The block comes into the head, and nothing else moves. -/
theorem parent?_insertBlock (anchor : Option NodeId) (hblock : ∀ m ∈ block, page.Has m) :
    (insertBlock page anchor block).parent? n = if n ∈ block then some page.head else page.parent? n := by
  induction block generalizing page anchor with
  | nil => simp [insertBlock]
  | cons node block ih =>
    obtain ⟨hnode, hblock⟩ := List.forall_mem_cons.mp hblock
    have hframe : page.SameFrame (page.attach page.head node (blockPlace node anchor)) :=
      Page.attach_sameFrame
    rw [insertBlock_cons, ih _ fun m hm => Page.has_attach.mpr (hblock m hm), hframe.head,
      Page.parent?_attach hnode]
    by_cases hn : n = node <;> by_cases hmem : n ∈ block <;> simp [hn, hmem]

/-- Attaching a node that stood nowhere takes nothing away. -/
theorem children_attach_detached {place : List NodeId → List NodeId} (h : page.WellFormed) {x : NodeId}
    (hn : page.parent? n = none) : (page.attach page.head n place).children x
      = if x = page.head then place (page.children x) else page.children x := by
  have hfilter : (page.children x).filter (· != n) = page.children x := by
    refine List.filter_eq_self.mpr fun c hc => ?_
    rw [bne_iff_ne]
    rintro rfl
    rw [(h.linked.mem_children_iff _ _).mp hc] at hn
    cases hn
  rw [h.linked.children_attach h.has_head, hfilter]

/-- Once its first node is there the block comes in order: each of its nodes is the anchor of the next. -/
theorem children_insertBlock_cons {anchor : Option NodeId} (h : page.WellFormed)
    (hscripts : ∀ m ∈ n :: block, page.tag? m = some "script") (hdetached : ∀ m ∈ n :: block, page.parent? m = none)
    (hnodup : (n :: block).Nodup) (hplace : blockPlace n anchor (page.children page.head) = front ++ n :: back) :
    (insertBlock page anchor (n :: block)).children page.head = front ++ n :: (block ++ back)
      ∧ ∀ x, x ≠ page.head → (insertBlock page anchor (n :: block)).children x = page.children x := by
  induction block generalizing page anchor n front with
  | nil =>
    have hparent : page.parent? n = none := hdetached n List.mem_cons_self
    refine ⟨?_, fun x hx => ?_⟩
    · rw [insertBlock_cons, insertBlock, children_attach_detached h hparent, if_pos rfl, hplace, List.nil_append]
    · rw [insertBlock_cons, insertBlock, children_attach_detached h hparent, if_neg hx]
  | cons next block ih =>
    obtain ⟨hnode, hscripts⟩ := List.forall_mem_cons.mp hscripts
    obtain ⟨hparent, hdetached⟩ := List.forall_mem_cons.mp hdetached
    obtain ⟨hnotMem, hnodup⟩ := List.nodup_cons.mp hnodup
    have hplaced : page.Maintains (page.attach page.head n (blockPlace n anchor)) :=
      h.maintains_attach_head (Page.has_of_tag? hnode) (h.not_isFixed_of_tag? hnode (by decide))
        (isPlacement_blockPlace n anchor)
    have hhead : (page.attach page.head n (blockPlace n anchor)).children page.head = front ++ n :: back := by
      rw [children_attach_detached h hparent, if_pos rfl, hplace]
    have hfront : n ∉ front := not_mem_front_of_nodup (hhead ▸ hplaced.wellFormed.linked.nodup page.head)
    have hnext : blockPlace next (some n) ((page.attach page.head n (blockPlace n anchor)).children
        (page.attach page.head n (blockPlace n anchor)).head) = (front ++ [n]) ++ next :: back := by
      rw [hplaced.head, hhead, blockPlace, insertAfter_append_cons hfront, List.append_assoc, List.singleton_append]
    have hrest := ih hplaced.wellFormed (fun m hm => hplaced.tag? m _ (hscripts m hm)) (fun m hm => ?_) hnodup hnext
    · rw [hplaced.head] at hrest
      rw [insertBlock_cons]
      refine ⟨by rw [hrest.1, List.append_assoc]; rfl, fun x hx => ?_⟩
      rw [hrest.2 x hx, children_attach_detached h hparent, if_neg hx]
    · rw [Page.parent?_attach_of_ne fun heq : m = n => hnotMem (heq ▸ hm), hdetached m hm]

/-- The children of the head are those before with the block behind the anchor; all others stay. -/
theorem children_insertBlock (h : page.WellFormed) (hscripts : ∀ m ∈ block, page.tag? m = some "script")
    (hdetached : ∀ m ∈ block, page.parent? m = none) (hnodup : block.Nodup) (anchor : Option NodeId)
    (hanchor : ∀ a ∈ anchor, a ∈ page.children page.head) : (insertBlock page anchor block).children x
      = if x = page.head then placeBlock block anchor (page.children page.head) else page.children x := by
  cases block with
  | nil =>
    rw [placeBlock_nil, insertBlock]
    split
    · next heq => rw [heq]
    · rfl
  | cons n block =>
    obtain ⟨front, back, hplace, hblock⟩ : ∃ front back,
        blockPlace n anchor (page.children page.head) = front ++ n :: back
          ∧ placeBlock (n :: block) anchor (page.children page.head) = front ++ n :: (block ++ back) := by
      cases anchor with
      | none => exact ⟨[], page.children page.head, rfl, rfl⟩
      | some a =>
        obtain ⟨front, back, hsplit⟩ := List.append_of_mem (hanchor a rfl)
        have hnodupHead := h.linked.nodup page.head
        rw [hsplit] at hnodupHead
        have ha : a ∉ front := not_mem_front_of_nodup hnodupHead
        refine ⟨front ++ [a], back, ?_, ?_⟩
        · rw [hsplit, blockPlace, insertAfter_append_cons ha, List.append_assoc, List.singleton_append]
        · rw [hsplit, placeBlock_of_split hnodupHead, List.append_assoc]
          rfl
    obtain ⟨hhead, hother⟩ := children_insertBlock_cons h hscripts hdetached hnodup hplace
    split
    · next heq => rw [heq, hhead, hblock]
    · next hne => exact hother x hne

/-! ## The anchor -/

/-- The first viewport, or else the first declaration of a character set, or else the first node. -/
def anchorAmong (isViewport : Element → Bool) (page : Page) (L : List NodeId) : Option NodeId :=
  ((L.find? (page.isElement · isViewport)).or (L.find? (page.isElement · Viewport.isCharset))).or L.head?

/-- The anchor is one of the children. -/
theorem mem_of_anchorAmong {isViewport : Element → Bool} (h : anchorAmong isViewport page L = some a) : a ∈ L := by
  rw [anchorAmong, Option.or_eq_some_iff, Option.or_eq_some_iff] at h
  rcases h with (h | ⟨-, h⟩) | ⟨-, h⟩
  · exact List.mem_of_find?_eq_some h
  · exact List.mem_of_find?_eq_some h
  · exact List.mem_of_head? h

theorem eq_nil_of_anchorAmong {isViewport : Element → Bool} (h : anchorAmong isViewport page L = none) : L = [] := by
  rw [anchorAmong, Option.or_eq_none_iff] at h
  exact List.head?_eq_none_iff.mp h.2

/-- Pages with the same viewports and charsets have the same anchor. -/
theorem anchorAmong_congr {isViewport : Element → Bool}
    (hviewport : ∀ n ∈ L, page'.isElement n isViewport = page.isElement n isViewport)
    (hcharset : ∀ n ∈ L, page'.isElement n Viewport.isCharset = page.isElement n Viewport.isCharset) :
    anchorAmong isViewport page' L = anchorAmong isViewport page L := by
  rw [anchorAmong, anchorAmong, List.find?_congr hviewport, List.find?_congr hcharset]

/-- A viewport declaration by the spelling that the pass looks for. -/
def isPlainViewport (el : Element) : Bool := el.tag == "meta" && el.attribute? "name" == some "viewport"

/-- The anchor of the pass is the one for viewports spelled in lower case. -/
theorem anchor?_eq : anchor? page = anchorAmong isPlainViewport page (page.children page.head) := by
  have hfind {q : NodeId → Bool} {p : Element → Bool}
      (hq : ∀ n el, page.element? n = some el → (el.tag == "meta" && q n) = p el) :
      ((page.elementChildren page.head).filter (page.isTag · "meta")).find? q
        = (page.children page.head).find? (page.isElement · p) := by
    rw [Page.elementChildren, List.find?_filter, List.find?_filter]
    refine List.find?_congr fun n _ => ?_
    rw [Page.isTag_eq_isElement, Page.isElement, Page.isElement]
    cases hel : page.element? n with
    | none => simp
    | some el =>
      rw [Bool.eq_iff_iff, Option.any_some, Option.any_some, ← hq n el hel]
      simp
  rw [anchor?, anchorAmong]
  refine congrArg (Option.or · _) (congrArg₂ Option.or (hfind fun n el hel => ?_) (hfind fun n el hel => ?_))
  · rw [isPlainViewport, Page.attribute?, hel]
    rfl
  · rw [Viewport.isCharset, Page.hasAttribute, Page.isElement, hel]
    rfl

theorem mem_of_anchor? (h : anchor? page = some a) : a ∈ page.children page.head :=
  mem_of_anchorAmong (anchor?_eq ▸ h)

/-! ## The block of the pass -/

/-- The children of the head that are neither runtime nor extension scripts. -/
def others (page : Page) : List NodeId := (page.children page.head).filter (· ∉ taken page)

section Run

variable (h : page.WellFormed)

include h

/-- Outside the head, taking the scripts out changes no children. -/
theorem children_cleared_of_ne (hn : n ≠ page.head) :
    (cleared page).children n = page.children n := by
  rw [cleared, h.linked.children_detachAll]
  refine List.filter_eq_self.mpr fun c hc => ?_
  rw [decide_eq_true_eq]
  intro hmem
  have hparent := (h.linked.mem_children_iff _ _).mp hc
  exact hn (Option.some.inj (hparent.symm.trans ((mem_taken_iff h.linked).mp hmem).1))

/-- What goes back was taken out or is new. -/
theorem parent?_cleared_of_mem_block (hn : n ∈ runtimeScripts page ++ nodesOf (retained s spec page)) :
    (cleared page).parent? n = none := by
  have hfree : n ∈ taken page ∨ ¬ page.Has n := by
    rcases List.mem_append.mp hn with hruntime | hheld
    · exact .inl (List.mem_append_left _ hruntime)
    · obtain ⟨x, hheld⟩ := mem_nodesOf_iff.mp hheld
      exact (origin_of_holds_retained h hheld).imp mem_taken_of_mem_extensionScripts And.left
  rw [cleared, Page.parent?_detachAll]
  split
  · rfl
  · next hnot => exact Page.parent?_of_not_has (hfree.resolve_left hnot)

/-- What goes back is nowhere on the page. -/
theorem parent?_stocked_of_mem_block (hn : n ∈ runtimeScripts page ++ nodesOf (retained s spec page)) :
    (stocked s spec page).1.parent? n = none := by
  rw [(stocked_spec s spec h).links.parent?, searched_sameLinks.parent?, parent?_cleared_of_mem_block h hn]

/-- What is left in the head when the block is complete are the other children, in their order. -/
theorem children_stocked : (stocked s spec page).1.children x
    = if x = page.head then others page else page.children x := by
  rw [(stocked_spec s spec h).links.children, searched_sameLinks.children]
  split
  · next heq => rw [heq, cleared, h.linked.children_detachAll, others]
  · next hne => exact children_cleared_of_ne h hne

/-- The block stands behind the anchor, and all else where it stood. -/
theorem children_run : (run s spec page).page.children x
    = if x = page.head then placeBlock (runtimeScripts page ++ nodesOf (retained s spec page))
        (anchor? (stocked s spec page).1) (others page)
      else page.children x := by
  have hinserted := children_insertBlock (x := x) (stocked_spec s spec h).wellFormed
    (fun m hm => tag?_of_mem_block h hm) (fun m hm => parent?_stocked_of_mem_block h hm) (nodup_run_block h)
    (anchor? (stocked s spec page).1) fun a ha => mem_of_anchor? ha
  rw [page_run, hinserted, (stocked_sameFrame h).head]
  split
  · rw [children_stocked h, if_pos rfl]
  · next hne => rw [children_stocked h, if_neg hne]

theorem children_run_of_ne (hx : x ≠ page.head) : (run s spec page).page.children x = page.children x := by
  rw [children_run h, if_neg hx]

/-- The head after the pass: the others in their order, and the block in one piece somewhere between them. -/
theorem exists_children_head_run (s : Settings.Extensions) (spec : Spec) : ∃ front back, others page = front ++ back
    ∧ (run s spec page).page.children page.head
      = front ++ (runtimeScripts page ++ nodesOf (retained s spec page) ++ back) := by
  have hanchor (a : NodeId) (ha : a ∈ anchor? (stocked s spec page).1) : a ∈ others page := by
    have hmem := mem_of_anchor? ha
    rwa [(stocked_sameFrame h).head, children_stocked h, if_pos rfl] at hmem
  rw [children_run h, if_pos rfl]
  exact exists_placeBlock ((h.linked.nodup _).filter _) hanchor

/-- Wherever the pass puts scripts, it puts them into the head; the other nodes stay where they are. -/
theorem parent?_run : (run s spec page).page.parent? n
    = if n ∈ runtimeScripts page ++ nodesOf (retained s spec page) then some page.head
      else (cleared page).parent? n := by
  have hhas (m : NodeId) (hm : m ∈ runtimeScripts page ++ nodesOf (retained s spec page)) :
      (stocked s spec page).1.Has m := Page.has_of_tag? (tag?_of_mem_block h hm)
  have hblock := parent?_insertBlock (n := n) (anchor? (stocked s spec page).1) hhas
  rw [page_run, hblock, (stocked_sameFrame h).head, (stocked_spec s spec h).links.parent?,
    searched_sameLinks.parent?]

end Run

end AmpTuner.Extensions
