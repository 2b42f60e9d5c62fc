import AmpTuner.Proofs.Page.Loading
import AmpTuner.Proofs.Pass.HeadOrder
import AmpTuner.Proofs.Rendering.Stylesheet

/-!
# The budget through all passes

Whatever passes run over a page, in whatever order and how often, the budget shows the size of the custom
stylesheet, and passes do not let the stylesheet grow over the limit.

* **`Pass.run_balanced`**: one pass keeps the balance. Rendering appends to the stylesheet, the order of
  the head moves it about, and all others leave it alone.
* **`budget_of_tuned`**: so it holds after every pass over a page that was loaded.
-/

namespace AmpTuner

open Markup (Document)
open Vocabulary (isRuntimeStyle isBoilerplateStyle)

variable {page page' : Page}

/-- Passes lead from one page to another, each with settings and resources of its own. -/
inductive Tuned (page : Page) : Page → Prop where
  | start : Tuned page page
  | pass {page' : Page} {pass : Pass} {s : Settings} {r : Resources} {w : Work} (h : Tuned page page')
      (hrun : pass.run s r page' = .ok w) : Tuned page w.page

/-- A run of the pipeline is such a sequence of passes, also one that is broken off. -/
theorem Pipeline.tuned_runPasses (s : Settings) (r : Resources) {passes : List Pass} {w : Work}
    (h : Tuned page w.page) : Tuned page (runPasses s r passes w).work.page := by
  induction passes generalizing w with
  | nil => exact h
  | cons pass passes ih =>
    rw [runPasses]
    split
    · next done hdone =>
      have hdone' : Tuned page done.page := h.pass hdone
      exact ih hdone'
    · exact h

/-- Every pass keeps the balance. -/
theorem Pass.run_balanced {most : Nat} (h : page.Balanced most) {pass : Pass} {s : Settings}
    {r : Resources} {w : Work} (hrun : pass.run s r page = .ok w) : w.page.Balanced most := by
  cases pass with
  | boilerplate => exact Except.ok.inj hrun ▸ h.keeps (Boilerplate.keeps h.tidy)
  | viewport => exact Except.ok.inj hrun ▸ h.keeps (Viewport.keeps h.tidy)
  | extensions => exact Except.ok.inj hrun ▸ h.keeps (Extensions.keeps h.tidy s.extensions r.spec)
  | rendering => exact Except.ok.inj hrun ▸ Rendering.run_balanced h s.rendering
  | runtimeCss => exact Except.ok.inj hrun ▸ h.keeps (RuntimeCss.keeps h.tidy s.runtimeCss r.fetch)
  | heroImages => exact Except.ok.inj hrun ▸ h.keeps (HeroImages.keeps h.tidy s.heroImages)
  | urls =>
    rw [Pass.run] at hrun
    split at hrun
    · cases hrun
    · exact Except.ok.inj hrun ▸ h.keeps (Urls.keeps h.tidy s.urls)
  | identifier => exact Except.ok.inj hrun ▸ h.keeps (Identifier.keeps h.tidy)
  | headOrder => exact Except.ok.inj hrun ▸ h.keeps (HeadOrder.keeps h.tidy)
  | minify => exact Except.ok.inj hrun ▸ h.keeps (Minify.keeps h.tidy s.minify)

/-- Any sequence of passes keeps the balance. By induction on it. -/
theorem Tuned.balanced {most : Nat} (h : page.Balanced most) (htuned : Tuned page page') :
    page'.Balanced most := by
  induction htuned with
  | start => exact h
  | pass _ hrun ih => exact Pass.run_balanced ih hrun

/-! ## Loaded pages -/

/-- Loading counts the stylesheet. -/
theorem Page.balanced_ofDocument {d : Document} (h : (Page.ofDocument d).Tidy) :
    (Page.ofDocument d).Balanced (Page.ofDocument d).customBytes := by
  let placed : Page := d.nodes.foldl Page.placeNode (.empty d.doctype)
  have hcounted : placed.customText = (Page.ofDocument d).customText :=
    h.customText_withCounters placed.budget placed.nextGenerated
  have hused : (Page.ofDocument d).budget.used = min placed.customBytes Css.maxCustomBytes := rfl
  exact
    { tidy := h
      limit := rfl
      used := by rw [hused, Page.customBytes_eq, hcounted, ← Page.customBytes_eq, Nat.min_comm]
      bounded := Nat.le_max_right _ _ }

/-- After every pass over a loaded page whose custom styles are no other styles and hold no elements, the
budget shows the size of the stylesheet up to the limit, and the stylesheet has not grown over it. -/
theorem budget_of_tuned {d : Document}
    (hapart : ∀ s ∈ (Page.ofDocument d).customStyles,
      (Page.ofDocument d).isElement s isRuntimeStyle = false
        ∧ (Page.ofDocument d).isElement s isBoilerplateStyle = false)
    (htexts : ∀ s ∈ (Page.ofDocument d).customStyles, ∀ c ∈ (Page.ofDocument d).children s,
      (Page.ofDocument d).element? c = none)
    (h : Tuned (Page.ofDocument d) page) :
    page.budget.used = min 75000 page.customBytes ∧ page.budget.used + page.budget.remaining = 75000
      ∧ page.customBytes ≤ max 75000 (Page.ofDocument d).customBytes := by
  have htidy : (Page.ofDocument d).Tidy :=
    ⟨Page.ofDocument_wellFormed d, fun s hs => (hapart s hs).1, fun s hs => (hapart s hs).2, htexts⟩
  have hbalanced := h.balanced (Page.balanced_ofDocument htidy)
  have hlimit : page.budget.limit = 75000 := hbalanced.limit
  exact ⟨hbalanced.used, by rw [page.budget.used_add_remaining, hlimit], hbalanced.bounded⟩

/-- A stylesheet, and an image whose media query goes into it. -/
def styledDocument : Document :=
  ⟨none, [.element ⟨"head", []⟩ [.element ⟨"style", [⟨"amp-custom", ""⟩]⟩ [.text "a\x7b\x7d"]],
    .element ⟨"amp-img", [⟨"media", "print"⟩]⟩ []]⟩

/-- Rendering twice and ordering the head, on a page that has a stylesheet. -/
theorem budget_of_rendered_ordered :
    let loaded := Page.ofDocument styledDocument
    let page := HeadOrder.run (Rendering.run {} loaded).page
    (∀ s ∈ loaded.customStyles, loaded.isElement s isRuntimeStyle = false
        ∧ loaded.isElement s isBoilerplateStyle = false)
      ∧ (∀ s ∈ loaded.customStyles, ∀ c ∈ loaded.children s, loaded.element? c = none)
      ∧ page.budget.used = min 75000 page.customBytes ∧ page.budget.used + page.budget.remaining = 75000
      ∧ page.customBytes ≤ max 75000 loaded.customBytes := by
  have hapart : ∀ s ∈ (Page.ofDocument styledDocument).customStyles,
      (Page.ofDocument styledDocument).isElement s isRuntimeStyle = false
        ∧ (Page.ofDocument styledDocument).isElement s isBoilerplateStyle = false := by decide
  have htexts : ∀ s ∈ (Page.ofDocument styledDocument).customStyles,
      ∀ c ∈ (Page.ofDocument styledDocument).children s,
        (Page.ofDocument styledDocument).element? c = none := by decide
  let rendered := Rendering.run {} (Page.ofDocument styledDocument)
  have hrendered : Tuned (Page.ofDocument styledDocument) rendered.page :=
    @Tuned.pass _ _ .rendering {} ⟨{}, Fetch.offline⟩ rendered .start rfl
  have hordered : Tuned (Page.ofDocument styledDocument) (HeadOrder.run rendered.page) :=
    @Tuned.pass _ _ .headOrder {} ⟨{}, Fetch.offline⟩ ⟨HeadOrder.run rendered.page, []⟩ hrendered rfl
  exact ⟨hapart, htexts, budget_of_tuned hapart htexts hordered⟩

end AmpTuner
