import AmpTuner.Proofs.Pass.Pairing
import AmpTuner.Proofs.Pass.Relocating
import AmpTuner.Proofs.Pass.Watching

/-!
# Nothing is loaded from the network

A site that holds its own copy of what pages load gets pages that load from there.

* **`Pass.loads_run`** is one pass, whatever the order: of what is pinned on the network nothing new is loaded, but for
  the style sheet of a release that could not be fetched (**`RuntimeCss.FallsBack`**). **`loads_runPasses`** takes it
  over the passes.
* **`keepsLoads_runPasses`**: what the pass of the addresses has brought about, the passes behind it leave alone.
* **`selfHosted_tune`** is the result for the default order, and **`not_selfHosted_tune_runtimePlaceholder`**
  shows why there is an exception.
-/

namespace AmpTuner

open Markup (Element)
open Vocabulary
open Urls (OnNetwork IsPinned TakesOver)

variable {page page' : Page} {id x : NodeId} {el : Element} {url : String}

/-! ## What passes that look elsewhere leave -/

/-- What later passes create and write loads nothing from the head. -/
theorem looksPast_loads? : LooksPast loads? where
  set el name value hname _ := by
    have hall : ∀ name ∈ touchedNames, name ∉ ["src", "href", "rel"] := by decide
    exact loads?_set (hall name hname) value
  incidental el hel := by
    refine loads?_of_tag fun hmem => ?_
    rcases hel with hel | hel
    · have hall : ∀ tag ∈ ["script", "link"], tag ∉ incidentalTags := by decide
      exact hall _ hmem hel
    · have hall : ∀ tag ∈ ["script", "link"], Markup.isComponent tag = false := by decide
      rw [hall _ hmem] at hel
      cases hel
  customStyle := by decide
  preload image source := by
    have hrel : (Element.make "link" (HeroImages.preloadAttributes image source)).attribute? "rel"
        = some "preload" := by
      have hcopied : "rel" ∉ (if image.hasAttribute "srcset" = true then HeroImages.copied image "srcset" "imagesrcset"
          ++ HeroImages.copied image "sizes" "imagesizes" else []).map (·.1) := by
        intro hmem
        obtain ⟨p, hp, hname⟩ := List.mem_map.mp hmem
        split at hp
        · rcases List.mem_append.mp hp with hp | hp <;> rw [HeroImages.fst_mem_of_copied hp] at hname <;>
            exact absurd hname (by decide)
        · cases hp
      rw [Element.make, HeroImages.preloadAttributes, Element.setAll, List.foldl_append, ← Element.setAll,
        Element.attribute?_setAll_of_not_mem hcopied]
      rfl
    rw [loads?, Element.tag_make, if_neg (by decide), Element.tokens, hrel]
    exact if_neg (by decide +kernel)

theorem Page.loads_iff : page.Loads x url ↔ page.parent? x = some page.head ∧ page.watched? loads? x = some url := by
  rw [watched?, Option.bind_eq_some_iff]
  exact ⟨fun h => ⟨h.parent?, h.element?⟩, fun h => ⟨h.1, h.2⟩⟩

theorem Page.KeepsWatched.loads_iff (h : page.KeepsWatched loads? page') : page'.Loads x url ↔ page.Loads x url := by
  rw [Page.loads_iff, Page.loads_iff, h.watched?, h.head]
  exact and_congr_left fun hurl => h.parent? x page.head (by rw [hurl]; rfl) (.inl rfl)

/-! ## Passes that write scripts and links -/

/-- The pass links the style sheet of a release, because it could not be fetched. -/
structure RuntimeCss.FallsBack (s : Settings.RuntimeCss) (fetch : Fetch) (url : String) : Prop where
  release : s.version.isSome = true
  unavailable : ∃ reason, RuntimeCss.download fetch (RuntimeCss.url s) = .error reason
  url : url = RuntimeCss.url s

section Passes

variable (h : page.WellFormed)

include h

/-- The boilerplate loads nothing. -/
theorem Boilerplate.loads_run (hloads : (Boilerplate.run page).Loads x url) : page.Loads x url := by
  rcases Boilerplate.run_cases h with ⟨heq, -⟩ | ⟨base, style, noscript, inner, hpaired, -, -, -, hhead, hkind, hback⟩
  · rwa [heq] at hloads
  · obtain ⟨hparent, el, hel, hurl⟩ := hloads
    rw [hpaired.maintains.head, hhead] at hparent
    by_cases hx : base.Has x
    · rw [hpaired.parent? x hx] at hparent
      rw [Page.element?_congr ((hpaired.kinds.kind? x hx).trans (hkind x))] at hel
      exact ⟨hback x _ hparent, el, hel, hurl⟩
    · -- what is new is the pair, and the pair loads nothing
      have hnone : loads? el = none := by
        rcases hpaired.origin x hx with rfl | rfl | rfl | hnone
        · obtain rfl := Option.some.inj (hpaired.styleAt.1.symm.trans hel)
          exact loads?_of_tag (by rw [Element.tag_make]; decide)
        · obtain rfl := Option.some.inj (hpaired.noscriptAt.1.symm.trans hel)
          exact loads?_of_tag (by rw [Element.tag_make]; decide)
        · obtain rfl := Option.some.inj (hpaired.innerAt.1.symm.trans hel)
          exact loads?_of_tag (by rw [Element.tag_make]; decide)
        · rw [hnone] at hel
          cases hel
      rw [hnone] at hurl
      cases hurl

/-- The boilerplate consists of styles and noscripts. -/
theorem Rendering.keepsLoads_removeBoilerplate :
    page.KeepsWatched loads? (Rendering.removeBoilerplate page) := by
  have hmarked : page.KeepsWatched loads? (page.setAttribute page.root noBoilerplateMarker "") :=
    Page.keepsWatched_setAttribute h fun el _ => loads?_set (by decide) ""
  rw [Rendering.removeBoilerplate_eq]
  generalize page.setAttribute page.root noBoilerplateMarker "" = marked at hmarked ⊢
  refine hmarked.trans (Page.keepsWatched_detachAll hmarked.wellFormed (fun y hy => ?_) fun y hy => ?_)
  · have hchild := (hmarked.wellFormed.linked.mem_children_iff _ y).mp
      (List.mem_of_mem_filter (List.mem_of_mem_filter hy))
    exact ⟨(hmarked.wellFormed.head_child hchild).1, (hmarked.wellFormed.head_child hchild).2.1⟩
  · have htag : marked.tag? y = some "style" ∨ marked.tag? y = some "noscript" := by
      obtain ⟨-, hboilerplate⟩ := List.mem_filter.mp hy
      rw [Bool.or_eq_true, Boilerplate.isNoscript, Bool.and_eq_true] at hboilerplate
      rcases hboilerplate with hstyle | ⟨hnoscript, -⟩
      · obtain ⟨el, hel, hstyle⟩ := Page.isElement_iff.mp hstyle
        rw [isBoilerplateStyle, Bool.and_eq_true, beq_iff_eq] at hstyle
        exact .inl (by rw [Page.tag?, hel, Option.map_some, hstyle.1])
      · obtain ⟨el, hel, htag⟩ := Page.isTag_iff.mp hnoscript
        exact .inr (by rw [Page.tag?, hel, Option.map_some, htag])
    have hnone {tag : String} (htag : marked.tag? y = some tag) (hplain : tag ∉ ["script", "link"]) :
        marked.watched? loads? y = none := by
      obtain ⟨el, hel, rfl⟩ := Option.map_eq_some_iff.mp htag
      rw [Page.watched?, hel]
      exact loads?_of_tag hplain
    exact htag.elim (hnone · (by decide)) (hnone · (by decide))

/-- Rendering changes nothing of what is loaded. -/
theorem Rendering.keepsLoads_run (s : Settings.Rendering) :
    page.KeepsWatched loads? (Rendering.run s page).page := by
  by_cases hmarked : page.hasAttribute page.root layoutMarker = true
  · rw [Rendering.run_of_marked hmarked]
    exact .refl h
  · have hfinished := Rendering.keepsWatched_finished h looksPast_loads?
    rw [Rendering.run_of_unmarked (Bool.eq_false_iff.mpr hmarked)]
    generalize Rendering.finished page = state at hfinished ⊢
    split
    · exact hfinished.trans (Rendering.keepsLoads_removeBoilerplate hfinished.wellFormed)
    · exact hfinished

omit h in
/-- A link to a style sheet loads it. -/
theorem RuntimeCss.loads?_link (url : String) :
    loads? (.make "link" [("rel", "stylesheet"), ("href", url)]) = some url := by
  have hrel : (Element.make "link" [("rel", "stylesheet"), ("href", url)]).attribute? "rel" = some "stylesheet" :=
    rfl
  rw [loads?, Element.tag_make, if_neg (by decide), Element.tokens, hrel]
  exact if_pos (by decide +kernel)

/-- The pass loads nothing pinned, unless it falls back to a link. -/
theorem RuntimeCss.loads_run {s : Settings.RuntimeCss} {fetch : Fetch} (hpinned : IsPinned url)
    (hloads : (RuntimeCss.run s fetch page).page.Loads x url) :
    page.Loads x url ∨ RuntimeCss.FallsBack s fetch url := by
  rcases RuntimeCss.run_cases s fetch page with
    ⟨heq, -⟩ | ⟨style, css, hfound, -, heq⟩ | ⟨style, reason, hfound, hfetch, heq⟩ <;> rw [heq] at hloads
  · exact .inl hloads
  · exact .inl ((RuntimeCss.keepsWatched_inlined h looksPast_loads? hfound css).loads_iff.mp hloads)
  · obtain ⟨hparent, el, hel, hurl⟩ := hloads
    rw [RuntimeCss.linked, Page.element?, Page.kind?_attachNew] at hel
    split at hel
    · -- without a version the link is not pinned
      obtain rfl := Option.some.inj hel
      rw [RuntimeCss.loads?_link] at hurl
      obtain rfl := Option.some.inj hurl
      refine .inr ⟨?_, ⟨reason, hfetch⟩, rfl⟩
      by_contra hnone
      rw [Option.not_isSome_iff_eq_none] at hnone
      rw [RuntimeCss.url, hnone] at hpinned
      exact absurd hpinned (by decide)
    · next hx =>
      have hframe : page.SameFrame (RuntimeCss.linked s page style) := Page.attachNew_sameFrame
      rw [hframe.head, RuntimeCss.linked, Page.parent?_attachNew, if_neg hx] at hparent
      exact .inl ⟨hparent, el, hel, hurl⟩

omit h in
/-- What is imported comes from the network, but from no release. -/
theorem Extensions.not_isPinned_extensionSource {name version : String} {asModule : Bool} :
    ¬ IsPinned (extensionSource cdnHost name version asModule) := by
  have hhost : Text.dropTrailing '/' cdnHost = cdnHost := by decide
  rw [extensionSource, hhost]
  simp only [IsPinned, String.append_assoc, Urls.startsWith_append_iff]
  rintro (hlts | hrtv)
  · rw [Urls.startsWith_iff] at hlts
    exact absurd hlts (by simp)
  · rw [Urls.startsWith_iff] at hrtv
    exact absurd hrtv (by simp)

omit h in
/-- An import loads its script. -/
theorem Extensions.loads?_importElement (s : Settings.Extensions) (e : Extension) :
    loads? (Extensions.importElement s e) = some (extensionSource cdnHost e.name
      (((s.versions.find? (·.1 == e.name)).map (·.2)).getD e.latest) false) := by
  rw [loads?, if_pos (Extensions.tag_importElement s e)]
  simp only [Extensions.importElement, Element.make, Element.setAll, List.foldl_cons, List.foldl_nil,
    Element.attribute?_set, if_pos]

/-- Imports are not pinned. -/
theorem Extensions.loads_run {s : Settings.Extensions} {spec : Spec} (hpinned : IsPinned url)
    (hloads : (Extensions.run s spec page).page.Loads x url) : page.Loads x url := by
  have hmaintains : page.Maintains (Extensions.run s spec page).page := Extensions.maintains_run h
  obtain ⟨hparent, el, hel, hurl⟩ := hloads
  rw [hmaintains.head, ← hmaintains.wellFormed.linked.mem_children_iff] at hparent
  rcases Extensions.of_mem_children_run h hparent with hold | ⟨-, -, e, -, -, himport⟩
  · rw [h.linked.mem_children_iff] at hold
    have hwritten (el : Element) : loads? (Extensions.written s el) = loads? el := by
      have hunbound : ∀ name ∈ ["src", "href", "rel"], Extensions.Unbound name := by decide
      exact loads?_congr Extensions.tag_written fun name hname => Extensions.attribute?_written (hunbound name hname)
    have hsame : ((Extensions.run s spec page).page.element? x).bind loads? = (page.element? x).bind loads? :=
      Extensions.bind_element?_run hwritten h (Page.has_of_parent? hold)
    rw [hel, Option.bind_some, hurl] at hsame
    exact Page.loads_iff.mpr ⟨hold, hsame.symm⟩
  · obtain rfl := Option.some.inj (himport.symm.trans hel)
    have hsource := Extensions.loads?_importElement s e
    rw [hurl] at hsource
    exact absurd (Option.some.inj hsource ▸ hpinned) Extensions.not_isPinned_extensionSource

end Passes

/-! ## Whole runs -/

/-- Of what is pinned a pass loads nothing that was not loaded before, but for the style sheet it falls back to. -/
theorem Pass.loads_run {pass : Pass} {s : Settings} {r : Resources} {done : Work} (hs : TakesOver s.urls)
    (hscheme : Urls.base s.urls ≠ "https:") (h : page.WellFormed) (hrun : pass.run s r page = .ok done)
    (hpinned : IsPinned url) (hloads : done.page.Loads x url) :
    page.Loads x url ∨ RuntimeCss.FallsBack s.runtimeCss r.fetch url := by
  cases pass with
  | boilerplate =>
    obtain rfl := Except.ok.inj hrun
    exact .inl (Boilerplate.loads_run h hloads)
  | viewport =>
    obtain rfl := Except.ok.inj hrun
    exact .inl ((Viewport.keepsWatched_run h looksPast_loads?).loads_iff.mp hloads)
  | extensions =>
    obtain rfl := Except.ok.inj hrun
    exact .inl (Extensions.loads_run h hpinned hloads)
  | rendering =>
    obtain rfl := Except.ok.inj hrun
    exact .inl ((Rendering.keepsLoads_run h _).loads_iff.mp hloads)
  | runtimeCss =>
    obtain rfl := Except.ok.inj hrun
    exact RuntimeCss.loads_run h hpinned hloads
  | heroImages =>
    obtain rfl := Except.ok.inj hrun
    exact .inl ((HeroImages.keepsWatched_run h looksPast_loads? _).loads_iff.mp hloads)
  | urls =>
    rw [Pass.run, hs.oneRelease] at hrun
    obtain rfl := Except.ok.inj hrun
    exact .inl (Urls.loads_run hs hscheme h hloads hpinned.onNetwork).1
  | identifier =>
    obtain rfl := Except.ok.inj hrun
    exact .inl ((Identifier.keepsWatched_run h looksPast_loads?).loads_iff.mp hloads)
  | headOrder =>
    obtain rfl := Except.ok.inj hrun
    exact .inl ((HeadOrder.keepsWatched_run h).loads_iff.mp hloads)
  | minify =>
    obtain rfl := Except.ok.inj hrun
    exact .inl ((Minify.keepsWatched_run h s.minify).loads_iff.mp hloads)

/-- Over a whole run, pinned addresses of the network are those that were loaded before, or the fallback. By induction
on the passes. -/
theorem loads_runPasses {s : Settings} {r : Resources} (hs : TakesOver s.urls) (hscheme : Urls.base s.urls ≠ "https:")
    {passes : List Pass} {w : Work} (h : w.page.WellFormed) (hpinned : IsPinned url)
    (hloads : (Pipeline.runPasses s r passes w).work.page.Loads x url) :
    w.page.Loads x url ∨ RuntimeCss.FallsBack s.runtimeCss r.fetch url := by
  induction passes generalizing w with
  | nil => exact .inl hloads
  | cons pass passes ih =>
    rw [Pipeline.runPasses] at hloads
    split at hloads
    · next done hdone =>
      have hwell : done.page.WellFormed := Pass.run_wellFormed h hdone
      rcases ih (w := ⟨done.page, w.issues ++ done.issues⟩) hwell hloads with hdoneLoads | hfallback
      · exact Pass.loads_run hs hscheme h hdone hpinned hdoneLoads
      · exact .inr hfallback
    · exact .inl hloads

/-- Only two releases at once are refused. -/
theorem Pass.exists_run {s : Settings} (hone : Urls.isContradictory s.urls = false) (pass : Pass) (r : Resources)
    (page : Page) : ∃ done, pass.run s r page = .ok done := by
  cases pass
  case urls => exact ⟨Urls.run s.urls page, by rw [Pass.run, hone, if_neg (by decide)]⟩
  all_goals exact ⟨_, rfl⟩

namespace Pipeline

variable {s : Settings} (hone : Urls.isContradictory s.urls = false) (r : Resources)

include hone

/-- With settings that agree no run is refused. -/
theorem refusal_runPasses (passes : List Pass) (w : Work) : (runPasses s r passes w).refusal = none := by
  induction passes generalizing w with
  | nil => rfl
  | cons pass passes ih =>
    obtain ⟨done, hdone⟩ := Pass.exists_run hone pass r w.page
    rw [runPasses, hdone]
    exact ih _

/-- A run of two lists of passes is one run after the other. -/
theorem runPasses_append (front back : List Pass) (w : Work) :
    runPasses s r (front ++ back) w = runPasses s r back (runPasses s r front w).work := by
  induction front generalizing w with
  | nil => rfl
  | cons pass front ih =>
    obtain ⟨done, hdone⟩ := Pass.exists_run hone pass r w.page
    rw [List.cons_append, runPasses, runPasses, hdone]
    exact ih _

end Pipeline

/-! ## The default order -/

/-- The passes behind that of the addresses. -/
def Pass.behindUrls : List Pass := [identifier, headOrder, minify]

/-- The passes behind the addresses change nothing of what is loaded. -/
theorem Pass.keepsLoads_run {pass : Pass} {s : Settings} {r : Resources} {done : Work} (hpass : pass ∈ behindUrls)
    (h : page.WellFormed) (hrun : pass.run s r page = .ok done) : page.KeepsWatched loads? done.page := by
  simp only [behindUrls, List.mem_cons, List.not_mem_nil, or_false] at hpass
  rcases hpass with rfl | rfl | rfl <;> obtain rfl := Except.ok.inj hrun
  · exact Identifier.keepsWatched_run h looksPast_loads?
  · exact HeadOrder.keepsWatched_run h
  · exact Minify.keepsWatched_run h s.minify

/-- A run of such passes changes nothing of what is loaded. By induction on the passes. -/
theorem keepsLoads_runPasses (s : Settings) (r : Resources) {passes : List Pass}
    (hpasses : ∀ pass ∈ passes, pass ∈ Pass.behindUrls) {w : Work} (h : w.page.WellFormed) :
    w.page.KeepsWatched loads? (Pipeline.runPasses s r passes w).work.page := by
  induction passes generalizing w with
  | nil => exact .refl h
  | cons pass passes ih =>
    obtain ⟨hpass, hpasses⟩ := List.forall_mem_cons.mp hpasses
    rw [Pipeline.runPasses]
    split
    · next done hdone =>
      have hkeeps := Pass.keepsLoads_run hpass h hdone
      exact hkeeps.trans (ih hpasses (w := ⟨done.page, w.issues ++ done.issues⟩) hkeeps.wellFormed)
    · exact .refl h

/-- With a host of its own, the default order has the addresses, and behind them only such passes. -/
theorem Pass.exists_defaultOrder_of_host {s : Settings} (hhost : s.urls.host.isSome = true) :
    ∃ front back, defaultOrder s = front ++ .urls :: back ∧ ∀ pass ∈ back, pass ∈ behindUrls := by
  have hwanted : isWanted s .urls = true := by
    rw [isWanted, Settings.Urls.isActive, hhost]
    simp
  refine ⟨[boilerplate, viewport, extensions, rendering, runtimeCss, heroImages].filter (isWanted s),
    behindUrls.filter (isWanted s), ?_, fun pass hpass => List.mem_of_mem_filter hpass⟩
  rw [← List.filter_cons_of_pos hwanted, ← List.filter_append]
  rfl

/-- Of what the head of a self-hosted page loads nothing is on the network but what names a channel or a release, and
that was loaded before or is the style sheet of a release that could not be fetched. -/
theorem selfHosted_tune {s : Settings} (d : Markup.Document) (r : Resources) (horder : s.passes = none)
    (hs : TakesOver s.urls) (hscheme : Urls.base s.urls ≠ "https:") :
    (tune s r (Page.ofDocument d)).refusal = none
      ∧ ∀ x url, (tune s r (Page.ofDocument d)).work.page.Loads x url → OnNetwork url →
        IsPinned url ∧ ((Page.ofDocument d).Loads x url ∨ RuntimeCss.FallsBack s.runtimeCss r.fetch url) := by
  have h := Page.ofDocument_wellFormed d
  obtain ⟨host, hhost, -, -⟩ := hs.host
  obtain ⟨front, back, hpasses, hback⟩ := Pass.exists_defaultOrder_of_host (s := s) (by rw [hhost]; rfl)
  have hsettings : Pipeline.ofSettings s = .ok ⟨front ++ .urls :: back, []⟩ := by
    rw [Pipeline.ofSettings, horder, hpasses]
  rw [tune, hsettings]
  generalize Page.ofDocument d = page at h ⊢
  show (Pipeline.runPasses s r (front ++ .urls :: back) ⟨page, []⟩).refusal = none
    ∧ ∀ x url, (Pipeline.runPasses s r (front ++ .urls :: back) ⟨page, []⟩).work.page.Loads x url → _
  refine ⟨Pipeline.refusal_runPasses hs.oneRelease r _ _, fun x url hloads hnetwork => ?_⟩
  rw [Pipeline.runPasses_append hs.oneRelease] at hloads
  have hfront : (Pipeline.runPasses s r front ⟨page, []⟩).work.page.WellFormed := Pipeline.runPasses_wellFormed s r h
  have hgrounded (hpinned : IsPinned url)
      (hbefore : (Pipeline.runPasses s r front ⟨page, []⟩).work.page.Loads x url) :
      page.Loads x url ∨ RuntimeCss.FallsBack s.runtimeCss r.fetch url :=
    loads_runPasses (w := ⟨page, []⟩) hs hscheme h hpinned hbefore
  generalize (Pipeline.runPasses s r front ⟨page, []⟩).work = w at hfront hgrounded hloads
  have hurls : Pass.run .urls s r w.page = .ok (Urls.run s.urls w.page) := by
    rw [Pass.run, hs.oneRelease]
    rfl
  rw [Pipeline.runPasses, hurls] at hloads
  -- behind the addresses nothing changes, and they leave what is pinned
  have hkeeps := keepsLoads_runPasses s r hback
    (w := ⟨(Urls.run s.urls w.page).page, w.issues ++ (Urls.run s.urls w.page).issues⟩)
    (Urls.run_wellFormed hfront s.urls)
  obtain ⟨hbefore, hpinned⟩ := Urls.loads_run hs hscheme hfront (hkeeps.loads_iff.mp hloads) hnetwork
  exact ⟨hpinned, hgrounded hpinned hbefore⟩

/-- A document that loads one script from a release and one from no place in particular. -/
def twoScripts : Markup.Document :=
  ⟨none, [.element ⟨"head", []⟩
    [.element ⟨"script", [⟨"src", "https://cdn.ampproject.org/v0.js"⟩]⟩ [],
      .element ⟨"script", [⟨"src", "https://cdn.ampproject.org/rtv/012105150310000/v0.js"⟩]⟩ []]]⟩

/-- Settings of a site with a copy of its own, and a release for the style sheet of the runtime or none. -/
def ownCopy (release : Option String) : Settings :=
  { runtimeCss := { version := release }, urls := { host := some "/amp" } }

theorem takesOver_ownCopy (release : Option String) : TakesOver (ownCopy release).urls :=
  ⟨⟨"/amp", rfl, by decide, by decide⟩, rfl⟩

/-- A head with a script to move and a pinned one. -/
theorem selfHosted_tune_twoScripts :
    (ownCopy none).passes = none ∧ TakesOver (ownCopy none).urls ∧ Urls.base (ownCopy none).urls ≠ "https:"
      ∧ (tune (ownCopy none) ⟨{}, Fetch.offline⟩ (Page.ofDocument twoScripts)).refusal = none
      ∧ ∀ x url, (tune (ownCopy none) ⟨{}, Fetch.offline⟩ (Page.ofDocument twoScripts)).work.page.Loads x url →
        OnNetwork url → IsPinned url ∧ ((Page.ofDocument twoScripts).Loads x url
          ∨ RuntimeCss.FallsBack (ownCopy none).runtimeCss Fetch.offline url) :=
  ⟨rfl, takesOver_ownCopy none, by decide, selfHosted_tune _ _ rfl (takesOver_ownCopy none) (by decide)⟩

/-- A document that waits for the style sheet of the runtime. -/
def runtimePlaceholder : Markup.Document :=
  ⟨none, [.element ⟨"head", []⟩ [.element ⟨"style", [⟨"amp-runtime", ""⟩]⟩ []]]⟩

/-- Where the style sheet of a release cannot be fetched the page loads it from the network, and did not before. -/
theorem not_selfHosted_tune_runtimePlaceholder :
    (ownCopy (some "012105150310000")).passes = none ∧ TakesOver (ownCopy (some "012105150310000")).urls
      ∧ ¬ ∀ x url, (tune (ownCopy (some "012105150310000")) ⟨{}, Fetch.offline⟩
          (Page.ofDocument runtimePlaceholder)).work.page.Loads x url → OnNetwork url →
        ∃ old, (Page.ofDocument runtimePlaceholder).Loads x old ∧ IsPinned old := by
  refine ⟨rfl, takesOver_ownCopy _, fun hall => ?_⟩
  have hlink : (tune (ownCopy (some "012105150310000")) ⟨{}, Fetch.offline⟩
      (Page.ofDocument runtimePlaceholder)).work.page.Loads ⟨10⟩
        "https://cdn.ampproject.org/rtv/012105150310000/v0.css" := Page.loads_iff.mpr (by decide +kernel)
  obtain ⟨old, hold, -⟩ := hall _ _ hlink (by decide)
  obtain ⟨el, hel, -⟩ := hold.element?
  have hnone : (Page.ofDocument runtimePlaceholder).element? ⟨10⟩ = none := by decide +kernel
  rw [hnone] at hel
  cases hel

end AmpTuner
