import AmpTuner.Proofs.Extensions.Grounds
import AmpTuner.Proofs.Pass.Pairing
import AmpTuner.Proofs.Pass.Relocating
import AmpTuner.Proofs.Pass.Watching

/-!
# The boilerplate is all there or all gone

Two passes decide about the boilerplate, and the others respect what they decide.

* **`Boilerplate.bearing?`** is what there is to watch: the marker of the root, and the elements that may belong to
  the boilerplate. What keeps that keeps the boilerplate (`Boilerplate.mem_styles_iff_of_keepsWatched`,
  `Boilerplate.mem_noscripts_iff_of_keepsWatched`).
* **`Boilerplate.Decided`** is the invariant: the root says that the boilerplate is gone and it is, or there is
  exactly one pair of it.
* **`Boilerplate.decided_run`** brings the invariant about, and **`Rendering.decided_run`** keeps it when it takes the
  boilerplate out.
* **`decided_runPasses`** takes it over all passes, and **`decided_tune`** over the default order.
-/

namespace AmpTuner

open Markup (Element)
open Vocabulary
open Page (Neutral)

variable {page page' : Page} {id x n : NodeId} {el : Element}

/-! ## What bears on the boilerplate -/

namespace Boilerplate

/-- The root, with or without the marker that the boilerplate is gone, and what may belong to the boilerplate. -/
inductive Bearing where
  | root (isMarked : Bool)
  | style
  | noscript
deriving DecidableEq

/-- What an element has to do with the boilerplate. -/
def bearing? (el : Element) : Option Bearing :=
  if el.tag = "html" then some (.root (el.hasAttribute noBoilerplateMarker))
  else if isBoilerplateStyle el then some .style
  else if el.tag = "noscript" then some .noscript
  else none

/-- Elements of other tags have no bearing. -/
theorem bearing?_of_tag (htag : el.tag ∉ ["html", "style", "noscript"]) : bearing? el = none := by
  simp only [List.mem_cons, List.not_mem_nil, or_false, not_or] at htag
  obtain ⟨hroot, hstyle, hnoscript⟩ := htag
  rw [bearing?, if_neg hroot, isBoilerplateStyle, beq_false_of_ne hstyle, Bool.false_and, if_neg (by decide),
    if_neg hnoscript]

/-- A boilerplate style has the bearing of one. -/
theorem bearing?_eq_style_iff : bearing? el = some .style ↔ isBoilerplateStyle el = true := by
  unfold bearing?
  split
  · next htag => simp [isBoilerplateStyle, htag]
  · split
    · next hstyle => simp [hstyle]
    · next hstyle => split <;> simp [hstyle]

/-- Every noscript has the bearing of one. -/
theorem bearing?_eq_noscript_iff : bearing? el = some .noscript ↔ el.tag = "noscript" := by
  unfold bearing?
  split
  · next htag => simp [htag]
  · split
    · next hstyle =>
      rw [isBoilerplateStyle, Bool.and_eq_true, beq_iff_eq] at hstyle
      simp [hstyle.1]
    · split
      · next htag => simp [htag]
      · next htag => simp [htag]

/-- Changes that leave the kinds of styles and the marker alone do not show. -/
theorem bearing?_congr {el' : Element} (htag : el'.tag = el.tag)
    (hstyle : isBoilerplateStyle el' = isBoilerplateStyle el)
    (hmarker : el'.hasAttribute noBoilerplateMarker = el.hasAttribute noBoilerplateMarker) :
    bearing? el' = bearing? el := by
  rw [bearing?, htag, hstyle, hmarker, bearing?]

theorem bearing?_set {name : String} (hname : name ∉ Page.styleMarkers) (hmarker : name ≠ noBoilerplateMarker)
    (value : String) : bearing? (el.set name value) = bearing? el := by
  refine bearing?_congr rfl ((Neutral.set value hname).isBoilerplateStyle el) ?_
  rw [Element.hasAttribute_eq_isSome, Element.attribute?_set_of_ne hmarker.symm, ← Element.hasAttribute_eq_isSome]

/-- What passes create and write has no bearing on the boilerplate. -/
theorem looksPast_bearing? : LooksPast bearing? where
  set el name value hname hmarker := by
    have hall : ∀ name ∈ touchedNames, name ∉ Page.styleMarkers := by decide
    exact bearing?_set (hall name hname) hmarker value
  incidental el hel := by
    refine bearing?_of_tag fun hmem => ?_
    rcases hel with hel | hel
    · have hall : ∀ tag ∈ ["html", "style", "noscript"], tag ∉ incidentalTags := by decide
      exact hall _ hmem hel
    · have hall : ∀ tag ∈ ["html", "style", "noscript"], Markup.isComponent tag = false := by decide
      rw [hall _ hmem] at hel
      cases hel
  customStyle := by decide
  preload _ _ := bearing?_of_tag (by rw [Element.tag_make]; decide)

section Watched

theorem watched?_eq_style_iff :
    page.watched? bearing? x = some .style ↔ page.isElement x isBoilerplateStyle = true := by
  rw [Page.watched?, Option.bind_eq_some_iff, Page.isElement_iff]
  exact exists_congr fun el => and_congr_right fun _ => bearing?_eq_style_iff

theorem watched?_eq_noscript_iff : page.watched? bearing? x = some .noscript ↔ page.tag? x = some "noscript" := by
  rw [Page.watched?, Option.bind_eq_some_iff, Page.tag?, Option.map_eq_some_iff]
  exact exists_congr fun el => and_congr_right fun _ => bearing?_eq_noscript_iff

theorem isSome_watched?_of_style (hx : page.isElement x isBoilerplateStyle = true) :
    (page.watched? bearing? x).isSome := by
  rw [watched?_eq_style_iff.mpr hx]
  rfl

theorem isSome_watched?_of_noscript (hx : page.tag? x = some "noscript") : (page.watched? bearing? x).isSome := by
  rw [watched?_eq_noscript_iff.mpr hx]
  rfl

/-- Of the root, the marker is watched. -/
theorem watched?_root (h : page.WellFormed) :
    page.watched? bearing? page.root = some (.root (page.hasAttribute page.root noBoilerplateMarker)) := by
  obtain ⟨el, hel, htag⟩ := Option.map_eq_some_iff.mp h.tag?_root
  rw [Page.watched?, hel, Option.bind_some, bearing?, if_pos htag, Page.hasAttribute, Page.isElement, hel]
  rfl

variable (h : page.KeepsWatched bearing? page') (hpage : page.WellFormed)

include h

theorem isElement_of_keepsWatched (x : NodeId) :
    page'.isElement x isBoilerplateStyle = true ↔ page.isElement x isBoilerplateStyle = true := by
  rw [← watched?_eq_style_iff, h.watched?, watched?_eq_style_iff]

theorem tag?_of_keepsWatched (x : NodeId) : page'.tag? x = some "noscript" ↔ page.tag? x = some "noscript" := by
  rw [← watched?_eq_noscript_iff, h.watched?, watched?_eq_noscript_iff]

include hpage

/-- The marker stays, or stays away. -/
theorem hasAttribute_root_of_keepsWatched :
    page'.hasAttribute page'.root noBoilerplateMarker = page.hasAttribute page.root noBoilerplateMarker := by
  have hroot := watched?_root h.wellFormed
  rw [h.watched?, h.root, watched?_root hpage] at hroot
  rw [h.root]
  exact (Bearing.root.inj (Option.some.inj hroot)).symm

theorem mem_styles_iff_of_keepsWatched : x ∈ styles page' ↔ x ∈ styles page := by
  rw [mem_styles_iff h.wellFormed.linked, mem_styles_iff hpage.linked, h.head, isElement_of_keepsWatched h]
  exact and_congr_left fun hstyle => h.parent? x page.head (isSome_watched?_of_style hstyle) (.inl rfl)

/-- The head keeps its boilerplate noscripts. -/
theorem mem_noscripts_iff_of_keepsWatched : x ∈ noscripts page' ↔ x ∈ noscripts page := by
  rw [mem_noscripts_iff h.wellFormed.linked, mem_noscripts_iff hpage.linked, h.head, ← Option.map_eq_some_iff,
    ← Option.map_eq_some_iff]
  show _ ∧ page'.tag? x = _ ∧ _ ↔ _ ∧ page.tag? x = _ ∧ _
  rw [tag?_of_keepsWatched h]
  have hinner (hx : page.tag? x = some "noscript") :
      (∃ c, page'.parent? c = some x ∧ page'.isElement c isBoilerplateStyle = true)
        ↔ ∃ c, page.parent? c = some x ∧ page.isElement c isBoilerplateStyle = true := by
    refine exists_congr fun c => ?_
    rw [isElement_of_keepsWatched h]
    exact and_congr_left fun hstyle => h.parent? c x (isSome_watched?_of_style hstyle) (.inr hx)
  constructor
  · rintro ⟨hparent, hx, hstyle⟩
    exact ⟨(h.parent? x page.head (isSome_watched?_of_noscript hx) (.inl rfl)).mp hparent, hx, (hinner hx).mp hstyle⟩
  · rintro ⟨hparent, hx, hstyle⟩
    exact ⟨(h.parent? x page.head (isSome_watched?_of_noscript hx) (.inl rfl)).mpr hparent, hx, (hinner hx).mpr hstyle⟩

theorem length_styles_of_keepsWatched : (styles page').length = (styles page).length :=
  length_eq_of_mem_iff (nodup_styles hpage.linked) (nodup_styles h.wellFormed.linked) fun _ =>
    mem_styles_iff_of_keepsWatched h hpage

theorem length_noscripts_of_keepsWatched : (noscripts page').length = (noscripts page).length :=
  length_eq_of_mem_iff (nodup_noscripts hpage.linked) (nodup_noscripts h.wellFormed.linked) fun _ =>
    mem_noscripts_iff_of_keepsWatched h hpage

end Watched

end Boilerplate

/-! ## Passes that write scripts and links -/

open Boilerplate

/-- The style sheet of the runtime has no bearing on the boilerplate. -/
theorem RuntimeCss.keepsBearing_run (h : page.WellFormed) (s : Settings.RuntimeCss) (fetch : Fetch) :
    page.KeepsWatched bearing? (RuntimeCss.run s fetch page).page := by
  rcases RuntimeCss.run_cases s fetch page with ⟨heq, -⟩ | ⟨style, css, hfound, -, heq⟩ | ⟨style, -, -, -, heq⟩ <;>
    rw [heq]
  · exact .refl h
  · exact RuntimeCss.keepsWatched_inlined h looksPast_bearing? hfound css
  · exact Page.keepsWatched_attachNew_head h (Element.distinct_make "link" _)
      (bearing?_of_tag (by rw [Element.tag_make]; decide)) (isPlacement_insertAfter _ style)

section Urls

variable (h : page.WellFormed)

include h

/-- A twin of a script has no bearing on the boilerplate. -/
theorem Urls.keepsBearing_addTwin (htag : page.tag? id = some "script") :
    page.KeepsWatched bearing? (Urls.addTwin page id) := by
  obtain ⟨el, hel, heltag⟩ := Option.map_eq_some_iff.mp htag
  rcases Urls.twinned_addTwin h hel with heq | ⟨stem, htwinned⟩
  · rw [heq]
    exact .refl h
  · refine { htwinned.maintains with watched? := fun x => ?_, parent? := fun x q hx _ => ?_ }
    · rw [Page.watched?, htwinned.element?]
      split
      · next hnext =>
        -- the twin is a script, too
        rw [hnext, Page.watched?_of_not_has Page.not_has_next]
        exact bearing?_of_tag (by rw [show (Urls.twinOf stem el).tag = "script" from heltag]; decide)
      · split
        · next hscript =>
          rw [hscript, Page.watched?, hel]
          exact bearing?_set (by decide) (by decide) ""
        · rfl
    · rw [htwinned.parent?, if_neg (Page.ne_next_of_has (Page.has_of_watched? hx))]

/-- Another address has no bearing on the boilerplate. -/
theorem Urls.keepsBearing_relocateChild (s : Settings.Urls) (id : NodeId) :
    page.KeepsWatched bearing? (Urls.relocateChild s page id) := by
  rcases Urls.relocateChild_eq_or s page id with ⟨heq, -⟩ | ⟨el, name, url, hel, hname, -, hcases⟩
  · rw [heq]
    exact .refl h
  · have hplain : name ∉ Page.styleMarkers ∧ name ≠ noBoilerplateMarker := by
      rcases Urls.eq_of_addressName? hname with rfl | rfl <;> decide
    have hset : page.KeepsWatched bearing? (page.setAttribute id name url) :=
      Page.keepsWatched_setAttribute h fun el _ => bearing?_set hplain.1 hplain.2 url
    rcases hcases with heq | ⟨htag, heq⟩ <;> rw [heq]
    · exact hset
    · refine hset.trans (Urls.keepsBearing_addTwin hset.wellFormed (hset.tag? id _ ?_))
      rw [Page.tag?, hel, ← htag]
      rfl

/-- Moving addresses has no bearing on the boilerplate. -/
theorem Urls.keepsBearing_run (s : Settings.Urls) : page.KeepsWatched bearing? (Urls.run s page).page := by
  rw [Urls.run]
  split
  · exact .refl h
  · have hmoved : page.KeepsWatched bearing? ((page.elementChildren page.head).foldl (Urls.relocateChild s) page) :=
      Page.keepsWatched_foldl h fun _ hp id _ => Urls.keepsBearing_relocateChild hp.wellFormed s id
    show page.KeepsWatched bearing? (if Urls.isSelfHosted s then _ else Urls.addPreconnect _)
    split
    · exact hmoved
    · refine hmoved.trans ?_
      rw [Urls.addPreconnect]
      split
      · exact .refl hmoved.wellFormed
      · exact Page.keepsWatched_attachNew_head hmoved.wellFormed (Element.distinct_make "link" _)
          (bearing?_of_tag (by rw [Element.tag_make]; decide)) (isPlacement_append _)

end Urls

namespace Extensions

variable {s : Settings.Extensions} {spec : Spec} {n : NodeId} (h : page.WellFormed)

/-- Spelling attributes out says nothing of the boilerplate. -/
theorem bearing?_written : bearing? (written s el) = bearing? el := by
  refine bearing?_congr tag_written ?_ (hasAttribute_written (by decide))
  rw [written]
  split
  · exact spellOut_neutral.isBoilerplateStyle el
  · rfl

include h

/-- The pass moves scripts and creates scripts. -/
theorem keepsBearing_run : page.KeepsWatched bearing? (run s spec page).page where
  toMaintains := maintains_run h
  watched? n := by
    by_cases hn : page.Has n
    · exact bind_element?_run (fun _ => bearing?_written) h hn
    · rw [Page.watched?_of_not_has hn]
      cases hel : (run s spec page).page.element? n with
      | none => rw [Page.watched?, hel, Option.bind_none]
      | some el =>
        obtain ⟨e, rfl⟩ := exists_importElement_of_not_has hel hn
        rw [Page.watched?, hel, Option.bind_some, bearing?_of_tag (by rw [tag_importElement]; decide)]
  parent? n q hn _ := by
    have hplain : page.tag? n ≠ some "script" := by
      intro htag
      obtain ⟨el, hel, htag⟩ := Option.map_eq_some_iff.mp htag
      rw [Page.watched?, hel, Option.bind_some, bearing?_of_tag (by rw [htag]; decide)] at hn
      cases hn
    rw [parent?_run h, if_neg, parent?_cleared_iff, and_iff_left fun hmem => hplain (tag?_of_mem_taken h.linked hmem)]
    intro hblock
    have hscript : (run s spec page).page.tag? n = some "script" := by
      rw [Page.tag?, element?_run, ← Page.tag?, tag?_of_mem_block h hblock]
    rw [tag?_run h (Page.has_of_watched? hn)] at hscript
    exact hplain hscript

end Extensions

/-! ## The decision -/

namespace Boilerplate

/-- The root says that there is no boilerplate and there is none, or there is one pair of it. -/
inductive Decided (page : Page) : Prop where
  | gone (hmarker : page.hasAttribute page.root noBoilerplateMarker = true) (hstyles : styles page = [])
      (hnoscripts : noscripts page = [])
  | whole (hmarker : page.hasAttribute page.root noBoilerplateMarker = false) (hstyles : (styles page).length = 1)
      (hnoscripts : (noscripts page).length = 1)

/-- What is decided stays so if what is watched stays. -/
theorem Decided.of_keepsWatched (hdecided : Decided page) (h : page.KeepsWatched bearing? page')
    (hpage : page.WellFormed) : Decided page' := by
  have hmarker := hasAttribute_root_of_keepsWatched h hpage
  have hstyles := length_styles_of_keepsWatched h hpage
  have hnoscripts := length_noscripts_of_keepsWatched h hpage
  cases hdecided with
  | gone hmarked hnoStyles hnoNoscripts =>
    rw [hnoStyles] at hstyles
    rw [hnoNoscripts] at hnoscripts
    exact .gone (hmarker.trans hmarked) (List.length_eq_zero_iff.mp hstyles) (List.length_eq_zero_iff.mp hnoscripts)
  | whole hunmarked hstyle hnoscript =>
    exact .whole (hmarker.trans hunmarked) (hstyles.trans hstyle) (hnoscripts.trans hnoscript)

/-- What is decided stays so. -/
theorem Decided.settled (hdecided : Decided page) : Settled page := by
  cases hdecided with
  | gone hmarked _ _ => exact .inl hmarked
  | whole _ hstyle hnoscript => exact .inr (.inr ⟨hstyle, hnoscript⟩)

/-- The pass leaves the attributes of the root alone. -/
theorem hasAttribute_root_run (h : page.WellFormed) (name : String) :
    (run page).hasAttribute (run page).root name = page.hasAttribute page.root name := by
  rw [run]
  split
  · rfl
  · split
    · rfl
    · have hbase : page.Maintains (page.detachAll (styles page ++ noscripts page)) :=
        h.maintains_detachAll_head fun b hb => .of_parent? (parent?_of_mem_boilerplateOf h.linked
          (mem_boilerplateOf_iff.mpr (List.mem_append.mp hb)))
      have hkind : (page.detachAll (styles page ++ noscripts page)).kind? page.root = page.kind? page.root :=
        Page.kind?_detachAll _
      generalize page.detachAll (styles page ++ noscripts page) = base at hbase hkind ⊢
      obtain ⟨style, noscript, inner, hpaired⟩ := paired_insertPair hbase.wellFormed
      have hroot := hpaired.kinds.kind? base.root hbase.wellFormed.has_root
      rw [hpaired.maintains.root, Page.hasAttribute, Page.isElement_congr (Page.element?_congr hroot), hbase.root,
        Page.isElement_congr (Page.element?_congr hkind), Page.hasAttribute]

/-- A page that declares neither another format nor that its boilerplate is gone gets one pair. -/
theorem decided_run (h : page.WellFormed) (hmarker : page.hasAttribute page.root noBoilerplateMarker = false)
    (hformats : ∀ format ∈ otherFormats, page.hasAttribute page.root format = false) : Decided (run page) := by
  have hmarker' := (hasAttribute_root_run h noBoilerplateMarker).trans hmarker
  rcases settled_run h with hmarked | hother | ⟨hstyle, hnoscript⟩
  · rw [hmarker'] at hmarked
    cases hmarked
  · obtain ⟨format, hformat, hdeclared⟩ := List.any_eq_true.mp hother
    rw [hasAttribute_root_run h, hformats format hformat] at hdeclared
    cases hdeclared
  · exact .whole hmarker' hstyle hnoscript

end Boilerplate

/-- Rendering keeps the decision: it takes the boilerplate away with a marker, or leaves both alone. -/
theorem Rendering.decided_run (h : page.WellFormed) (hdecided : Boilerplate.Decided page) (s : Settings.Rendering) :
    Boilerplate.Decided (Rendering.run s page).page := by
  have hfinished := Rendering.keepsWatched_finished h Boilerplate.looksPast_bearing?
  by_cases hmarked : page.hasAttribute page.root layoutMarker = true
  · rwa [Rendering.run_of_marked hmarked]
  · rw [Rendering.run_of_unmarked (Bool.eq_false_iff.mpr hmarked)]
    generalize Rendering.finished page = state at hfinished ⊢
    split
    · -- the boilerplate goes, and the root says so
      have hnone {x : NodeId} (hx : x ∈ (Rendering.removeBoilerplate state.1.page).elementChildren
          (Rendering.removeBoilerplate state.1.page).head) :=
        Rendering.no_boilerplate_removeBoilerplate hfinished.wellFormed (List.mem_of_mem_filter hx)
      refine .gone (Rendering.hasAttribute_root_removeBoilerplate hfinished.wellFormed) ?_ ?_
      · exact List.filter_eq_nil_iff.mpr fun x hx => Bool.eq_false_iff.mp (hnone hx).1
      · exact List.filter_eq_nil_iff.mpr fun x hx => Bool.eq_false_iff.mp (hnone hx).2
    · exact hdecided.of_keepsWatched hfinished h

/-! ## Whole runs -/

/-- No pass undoes what is decided. -/
theorem Pass.decided_run {pass : Pass} {s : Settings} {r : Resources} {done : Work} (h : page.WellFormed)
    (hdecided : Boilerplate.Decided page) (hrun : pass.run s r page = .ok done) : Boilerplate.Decided done.page := by
  cases pass with
  | boilerplate =>
    obtain rfl := Except.ok.inj hrun
    show Boilerplate.Decided (Boilerplate.run page)
    rwa [Boilerplate.run_of_settled hdecided.settled]
  | viewport =>
    obtain rfl := Except.ok.inj hrun
    exact hdecided.of_keepsWatched (Viewport.keepsWatched_run h Boilerplate.looksPast_bearing?) h
  | extensions => exact Except.ok.inj hrun ▸ hdecided.of_keepsWatched (Extensions.keepsBearing_run h) h
  | rendering => exact Except.ok.inj hrun ▸ Rendering.decided_run h hdecided s.rendering
  | runtimeCss => exact Except.ok.inj hrun ▸ hdecided.of_keepsWatched (RuntimeCss.keepsBearing_run h _ _) h
  | heroImages =>
    obtain rfl := Except.ok.inj hrun
    exact hdecided.of_keepsWatched (HeroImages.keepsWatched_run h Boilerplate.looksPast_bearing? _) h
  | urls =>
    rw [Pass.run] at hrun
    split at hrun
    · cases hrun
    · exact Except.ok.inj hrun ▸ hdecided.of_keepsWatched (Urls.keepsBearing_run h s.urls) h
  | identifier =>
    obtain rfl := Except.ok.inj hrun
    exact hdecided.of_keepsWatched (Identifier.keepsWatched_run h Boilerplate.looksPast_bearing?) h
  | headOrder => exact Except.ok.inj hrun ▸ hdecided.of_keepsWatched (HeadOrder.keepsWatched_run h) h
  | minify => exact Except.ok.inj hrun ▸ hdecided.of_keepsWatched (Minify.keepsWatched_run h s.minify) h

/-- A whole run keeps the decision. By induction on the passes. -/
theorem decided_runPasses (s : Settings) (r : Resources) {passes : List Pass} {w : Work} (h : w.page.WellFormed)
    (hdecided : Boilerplate.Decided w.page) :
    Boilerplate.Decided (Pipeline.runPasses s r passes w).work.page := by
  induction passes generalizing w with
  | nil => exact hdecided
  | cons pass passes ih =>
    rw [Pipeline.runPasses]
    split
    · next done hdone =>
      have hwell : done.page.WellFormed := Pass.run_wellFormed h hdone
      have hdecided' : Boilerplate.Decided done.page := Pass.decided_run h hdecided hdone
      exact ih hwell hdecided'
    · exact hdecided

theorem exists_defaultOrder (s : Settings) : ∃ passes, Pass.defaultOrder s = .boilerplate :: passes :=
  ⟨_, List.filter_cons_of_pos rfl⟩

/-- The default order decides about the boilerplate of every document whose root leaves the decision open. -/
theorem decided_tune {s : Settings} {d : Markup.Document} (r : Resources) (horder : s.passes = none)
    (hmarker : (Page.ofDocument d).hasAttribute (Page.ofDocument d).root noBoilerplateMarker = false)
    (hformats : ∀ format ∈ Boilerplate.otherFormats,
      (Page.ofDocument d).hasAttribute (Page.ofDocument d).root format = false) :
    Boilerplate.Decided (tune s r (Page.ofDocument d)).work.page := by
  have h := Page.ofDocument_wellFormed d
  obtain ⟨passes, hpasses⟩ := exists_defaultOrder s
  have hsettings : Pipeline.ofSettings s = .ok ⟨.boilerplate :: passes, []⟩ := by
    rw [Pipeline.ofSettings, horder, hpasses]
  have hdecided := Boilerplate.decided_run h hmarker hformats
  rw [tune, hsettings]
  generalize Page.ofDocument d = page at h hdecided ⊢
  show Boilerplate.Decided (Pipeline.runPasses s r passes ⟨Boilerplate.run page, []⟩).work.page
  exact decided_runPasses s r (Boilerplate.run_wellFormed h) hdecided

/-- A document with half of the boilerplate. -/
def loneStyle : Markup.Document :=
  ⟨none, [.element ⟨"head", []⟩ [.element ⟨"style", [⟨"amp-boilerplate", ""⟩]⟩ []]]⟩

/-- A page with a boilerplate style and no noscript. -/
theorem decided_tune_loneStyle :
    (Page.ofDocument loneStyle).hasAttribute (Page.ofDocument loneStyle).root noBoilerplateMarker = false
      ∧ (∀ format ∈ Boilerplate.otherFormats,
        (Page.ofDocument loneStyle).hasAttribute (Page.ofDocument loneStyle).root format = false)
      ∧ Boilerplate.Decided (tune {} ⟨Spec.bundled, Fetch.offline⟩ (Page.ofDocument loneStyle)).work.page :=
  ⟨by decide +kernel, by decide +kernel, decided_tune _ rfl (by decide +kernel) (by decide +kernel)⟩

end AmpTuner
