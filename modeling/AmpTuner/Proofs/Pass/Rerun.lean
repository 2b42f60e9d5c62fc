import AmpTuner.Proofs.Extensions.Completion
import AmpTuner.Proofs.Pass.Pairing
import AmpTuner.Proofs.Pass.Settling

/-!
# Running the default order again

The second run of the default order finds nothing left to do.

* **`prepared_prepare`** is about the passes in front of rendering, **`finished_finish`** about those behind it.
* **`settled_tune`**: after both, and with rendering between them, the page is one that is left alone.
* **`toHtml_tune_tune`**: a page that was read from markup is written as it was after the second run, when
  the boilerplate holds nothing but style sheets, and the head nothing that changes places when it is ordered again.
-/

namespace AmpTuner

open Markup (Element)
open Vocabulary

variable {lost : Element → Prop} {page page' : Page} {ρ : NodeId → NodeId} {r : Resources}

/-! ## Changes that leave the boilerplate and the viewport alone -/

/-- A settled boilerplate stays settled. -/
theorem Evolves.boilerplate (h : Evolves (fun _ => False) page page' ρ) (hpage : page.WellFormed)
    (hsettled : Boilerplate.Settled page) : Boilerplate.Settled page' :=
  hsettled.congr hpage.linked h.wellFormed.linked (fun _ => h.mem_styles_iff hpage fun _ => False.elim)
    (fun _ => h.mem_noscripts_iff hpage fun _ => False.elim) fun name hmark => by
      rw [h.root]
      exact h.marks name hmark

/-- The number of viewports stays. -/
theorem Evolves.length_viewports (h : Evolves lost page page' ρ) (hpage : page.WellFormed)
    (hlost : ∀ el, lost el → Viewport.isViewport el = false) :
    (page'.elementsWhere page'.head Viewport.isViewport).length
      = (page.elementsWhere page.head Viewport.isViewport).length :=
  Viewport.length_viewports_congr hpage.linked h.wellFormed.linked fun x => by
    rw [h.head]
    exact h.viewport_iff hpage hlost

/-! ## In front of rendering -/

/-- The page as it comes to rendering. -/
def prepare (r : Resources) (page : Page) : Page :=
  (Extensions.run {} r.spec (Viewport.run (Boilerplate.run page))).page

/-- The page has its boilerplate, its viewport and its extensions, and will have them after later passes. -/
structure Prepared (r : Resources) (page : Page) : Prop where
  wellFormed : page.WellFormed
  literal : page.HeadLiteral
  inert : InertBoilerplate r.spec page
  boilerplate : Boilerplate.Settled page
  viewport : (page.elementsWhere page.head Viewport.isViewport).length = 1
  extensions : ∀ page' ρ, Evolves (Inert r.spec) page page' ρ → Extensions.Complete {} r.spec page'

/-- The passes in front of rendering leave nothing for themselves to do. -/
theorem prepared_prepare (h : page.WellFormed) (hliteral : page.HeadLiteral) (hspec : r.spec.Quiet)
    (hinert : InertBoilerplate r.spec page) : Prepared r (prepare r page) := by
  have hpaired : (Boilerplate.run page).WellFormed := Boilerplate.run_wellFormed h
  have hpairedLiteral : (Boilerplate.run page).HeadLiteral := Boilerplate.headLiteral_run h hliteral
  have hpairedInert : InertBoilerplate r.spec (Boilerplate.run page) := Boilerplate.inertBoilerplate_run h hspec hinert
  have hsettled : Boilerplate.Settled (Boilerplate.run page) := Boilerplate.settled_run h
  rw [prepare]
  generalize Boilerplate.run page = paired at hpaired hpairedLiteral hpairedInert hsettled ⊢
  obtain ⟨hviewed, hone⟩ := Viewport.spares_run_and_length hpaired
  have hviewedLiteral := hviewed.headLiteral hpaired hpairedLiteral
  have hviewedInert := hviewed.inertBoilerplate hpaired hpairedInert
  have hsettled := hviewed.boilerplate hpaired hsettled
  have hviewed := hviewed.wellFormed
  generalize Viewport.run paired = viewed at hviewed hone hviewedLiteral hviewedInert hsettled ⊢
  have hspares : Spares viewed (Extensions.run {} r.spec viewed).page := Extensions.spares_run hviewed rfl
  exact
    { wellFormed := hspares.wellFormed
      literal := hspares.headLiteral hviewed hviewedLiteral
      inert := hspares.inertBoilerplate hviewed hviewedInert
      boilerplate := hspares.boilerplate hviewed hsettled
      viewport := (Extensions.length_viewports_run hviewed rfl hviewedLiteral hspec.named).trans hone
      extensions := fun page' ρ hevolves =>
        Extensions.complete_of_evolves hviewed hviewedLiteral rfl hspec hevolves fun _ hlost => hlost }

/-! ## Behind rendering -/

/-- What comes of the page behind rendering. -/
def finish (r : Resources) (page : Page) : Page :=
  HeadOrder.run (Identifier.run (HeroImages.run {} (RuntimeCss.run {} r.fetch page).page).page)

/-- No two children of the head ask to be the boilerplate or its noscript, and of two scripts of the viewer none
declares an extension. -/
structure HeadOrder.Unrivalled (page : Page) : Prop where
  boilerplate : (asking page (page.children page.head) .boilerplateStyle).length ≤ 1
  noscript : (asking page (page.children page.head) .noscript).length ≤ 1
  viewer : ViewerAlone page (page.children page.head)

/-- The passes behind rendering have nothing left to do, and have lost nothing. -/
structure Finished (r : Resources) (page page' : Page) : Prop where
  evolves : Evolves (fun _ => False) page page' fun x => x
  runtimeCss : RuntimeCss.Settled {} r.fetch page'
  heroImages : HeroImages.Settled {} page'
  identifier : page'.attribute? page'.root "transformed" = some "self;v=1"
  headOrder : HeadOrder.Unrivalled page' → ∃ slot, HeadOrder.InOrder page' slot

/-- The passes behind rendering leave nothing for themselves to do. -/
theorem finished_finish (h : page.WellFormed) (hliteral : page.HeadLiteral) (r : Resources) :
    Finished r page (finish r page) := by
  have hstyled := RuntimeCss.evolves_run h hliteral {} r.fetch
  have hruntime := RuntimeCss.settled_run h hliteral r.fetch
  rw [finish]
  generalize (RuntimeCss.run {} r.fetch page).page = styled at hstyled hruntime ⊢
  have hpreloaded := HeroImages.evolves_run hstyled.wellFormed hstyled.literal {}
  have hheroes := HeroImages.settled_run hstyled.wellFormed {}
  have hruntime := HeroImages.runtimeCss_run hstyled.wellFormed hstyled.literal (s := {}) hruntime
  generalize (HeroImages.run {} styled).page = preloaded at hpreloaded hheroes hruntime ⊢
  have hidentified : Evolves (fun _ => False) preloaded (Identifier.run preloaded) fun x => x :=
    Identifier.evolves_run hpreloaded.wellFormed hpreloaded.literal
  have hordered : Evolves (fun _ => False) (Identifier.run preloaded) (HeadOrder.run (Identifier.run preloaded))
      fun x => x := HeadOrder.evolves_run hidentified.wellFormed hidentified.literal
  have hbody : (Identifier.run preloaded).SameBody (HeadOrder.run (Identifier.run preloaded)) :=
    HeadOrder.sameBody_run hidentified.wellFormed
  exact
    { evolves := ((hstyled.trans hpreloaded fun _ _ _ => id).trans hidentified fun _ _ _ => id).trans hordered
        fun _ _ _ => id
      runtimeCss := HeadOrder.runtimeCss_run hidentified.wellFormed hidentified.literal
        (Identifier.runtimeCss_run hpreloaded.wellFormed hpreloaded.literal hruntime)
      heroImages := (hheroes.congr (Identifier.sameBody_run hpreloaded.wellFormed) hpreloaded.wellFormed).congr hbody
        hidentified.wellFormed
      identifier := by
        have hkind : (HeadOrder.run (Identifier.run preloaded)).element? (Identifier.run preloaded).root
            = (Identifier.run preloaded).element? (Identifier.run preloaded).root :=
          Page.element?_congr HeadOrder.kind?_run
        rw [hbody.root, Page.attribute?, hkind, hidentified.root]
        exact Identifier.attribute?_run hpreloaded.wellFormed
      headOrder := fun hhead => HeadOrder.inOrder_run hidentified.wellFormed hhead.boilerplate hhead.noscript }

/-! ## The second run -/

instance : DecidablePred HeadOrder.Unrivalled := fun page =>
  decidable_of_iff ((HeadOrder.asking page (page.children page.head) .boilerplateStyle).length ≤ 1
      ∧ (HeadOrder.asking page (page.children page.head) .noscript).length ≤ 1
      ∧ HeadOrder.ViewerAlone page (page.children page.head))
    ⟨fun ⟨hboilerplate, hnoscript, hviewer⟩ => ⟨hboilerplate, hnoscript, hviewer⟩,
      fun h => ⟨h.boilerplate, h.noscript, h.viewer⟩⟩

instance (spec : Spec) : DecidablePred (Inert spec) := fun el =>
  decidable_of_iff (Extensions.requiredBy spec el = [] ∧ Markup.isComponent el.tag = false
      ∧ Viewport.isViewport el = false)
    ⟨fun ⟨hrequires, hcomponent, hviewport⟩ => ⟨hrequires, hcomponent, hviewport⟩,
      fun h => ⟨h.requires, h.component, h.viewport⟩⟩

theorem inertBoilerplate_iff {spec : Spec} (h : page.Linked) : InertBoilerplate spec page
    ↔ ∀ b ∈ Rendering.boilerplateOf page, ∀ x ∈ b :: page.descendants b, ∀ el ∈ page.element? x, Inert spec el := by
  simp only [List.mem_cons, h.mem_descendants_iff]
  exact ⟨fun hinert b hb x hx el hel => hinert b x el hb hx hel, fun hinert b x el hb hx hel => hinert b hb x hx el hel⟩

/-- After a whole run nothing is left to do for any pass. -/
theorem settled_tune (h : page.WellFormed) (hliteral : page.HeadLiteral) (hspec : r.spec.Quiet)
    (hinert : InertBoilerplate r.spec page) (hhead : HeadOrder.Unrivalled (tune {} r page).work.page) :
    Settled r (tune {} r page).work.page := by
  have heq : (tune {} r page).work.page = finish r (Rendering.run {} (prepare r page)).page := page_tune r page
  have hprepared := prepared_prepare h hliteral hspec hinert
  obtain ⟨hrendered, hevolves⟩ := Rendering.evolves_run hspec hprepared.wellFormed hprepared.literal hprepared.inert {}
  rw [heq] at hhead ⊢
  generalize prepare r page = prepared at hprepared hrendered hevolves hhead ⊢
  generalize (Rendering.run {} prepared).page = rendered at hrendered hevolves hhead ⊢
  -- what rendering may have dropped is of no interest to the passes in front of it
  have hinertEvolves : ∃ ρ, Evolves (Inert r.spec) prepared rendered ρ := by
    rcases hevolves with ⟨ρ, hevolves⟩ | ⟨-, hevolves⟩
    · exact ⟨ρ, hevolves.mono fun _ hnone => hnone.elim⟩
    · exact hevolves
  obtain ⟨ρ, hinertEvolves⟩ := hinertEvolves
  have hfinished := finished_finish hinertEvolves.wellFormed hinertEvolves.literal r
  have hall : Evolves (Inert r.spec) prepared (finish r rendered) ((fun x => x) ∘ ρ) :=
    hinertEvolves.trans (hfinished.evolves.mono fun _ hnone => hnone.elim) fun el el' hres => (hres.inert_iff hspec).mp
  have hmark {name : String} (hname : rendered.hasAttribute rendered.root name = true) :
      (finish r rendered).hasAttribute (finish r rendered).root name = true := by
    rw [hfinished.evolves.root]
    exact hfinished.evolves.marks name hname
  exact
    { boilerplate := by
        rcases hevolves with ⟨σ, hevolves⟩ | ⟨hmarked, -⟩
        · exact hfinished.evolves.boilerplate hevolves.wellFormed
            (hevolves.boilerplate hprepared.wellFormed hprepared.boilerplate)
        · exact .inl (hmark hmarked)
      viewport := (hall.length_viewports hprepared.wellFormed fun _ hlost => hlost.viewport).trans hprepared.viewport
      extensions := hprepared.extensions _ _ hall
      rendering := hmark (hinertEvolves.root ▸ hrendered)
      runtimeCss := hfinished.runtimeCss
      heroImages := hfinished.heroImages
      identifier := hfinished.identifier
      headOrder := hfinished.headOrder hhead
      viewerAlone := hhead.viewer }

/-- A page that was read from markup is written the same after the second run. -/
theorem toHtml_tune_tune {source : String} (hsource : Page.ofMarkup source = .ok page) (fetch : Fetch)
    (hinert : InertBoilerplate .bundled page)
    (hhead : HeadOrder.Unrivalled (tune {} ⟨.bundled, fetch⟩ page).work.page) :
    (tune {} ⟨.bundled, fetch⟩ (tune {} ⟨.bundled, fetch⟩ page).work.page).work.page.toHtml
      = (tune {} ⟨.bundled, fetch⟩ page).work.page.toHtml := by
  have hread := Page.nearlyReadable_of_ofMarkup hsource
  exact toHtml_tune_of_settled (tune_wellFormed hread.wellFormed {} ⟨.bundled, fetch⟩)
    (settled_tune hread.wellFormed hread.headLiteral Spec.quiet_bundled hinert hhead)

/-- Half a boilerplate, a place for the style sheet of the runtime, a hero image, and a list without its script. -/
def heroSource : String :=
  "<head><style amp-boilerplate></style><style amp-runtime></style></head>"
    ++ "<amp-img data-hero src=a width=2 height=1></amp-img><amp-list>"

/-- A page that keeps every pass busy. -/
theorem toHtml_tune_tune_heroSource : ∃ page, Page.ofMarkup heroSource = .ok page
    ∧ InertBoilerplate .bundled page ∧ HeadOrder.Unrivalled (tune {} ⟨.bundled, Fetch.offline⟩ page).work.page
    ∧ (tune {} ⟨.bundled, Fetch.offline⟩ (tune {} ⟨.bundled, Fetch.offline⟩ page).work.page).work.page.toHtml
      = (tune {} ⟨.bundled, Fetch.offline⟩ page).work.page.toHtml := by
  have haccepted : (Page.ofMarkup heroSource).toOption.any (fun page =>
      decide ((∀ b ∈ Rendering.boilerplateOf page, ∀ x ∈ b :: page.descendants b, ∀ el ∈ page.element? x,
          Inert .bundled el)
        ∧ HeadOrder.Unrivalled (tune {} ⟨.bundled, Fetch.offline⟩ page).work.page)) = true := by decide +kernel
  obtain ⟨page, hread, hholds⟩ := Page.exists_of_toOption_any haccepted
  rw [decide_eq_true_eq] at hholds
  have hinert : InertBoilerplate .bundled page :=
    (inertBoilerplate_iff (Page.wellFormed_of_ofMarkup hread).linked).mpr hholds.1
  exact ⟨page, hread, hinert, hholds.2, toHtml_tune_tune hread Fetch.offline hinert hholds.2⟩

/-- Two noscripts, which change places with each run. -/
def noscriptsSource : String :=
  "<html><head><noscript>a</noscript><noscript>b</noscript></head><body></body></html>"

/-- With two noscripts the second run changes the page. -/
theorem toHtml_tune_tune_ne_noscriptsSource : ∃ page, Page.ofMarkup noscriptsSource = .ok page
    ∧ (tune {} ⟨.bundled, Fetch.offline⟩ (tune {} ⟨.bundled, Fetch.offline⟩ page).work.page).work.page.toHtml
      ≠ (tune {} ⟨.bundled, Fetch.offline⟩ page).work.page.toHtml := by
  have haccepted : (Page.ofMarkup noscriptsSource).toOption.any (fun page =>
      (tune {} ⟨.bundled, Fetch.offline⟩ (tune {} ⟨.bundled, Fetch.offline⟩ page).work.page).work.page.toHtml
        != (tune {} ⟨.bundled, Fetch.offline⟩ page).work.page.toHtml) = true := by decide +kernel
  obtain ⟨page, hread, hne⟩ := Page.exists_of_toOption_any haccepted
  exact ⟨page, hread, bne_iff_ne.mp hne⟩

end AmpTuner
