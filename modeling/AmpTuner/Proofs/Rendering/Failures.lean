import AmpTuner.Proofs.Rendering.Outcomes

/-!
# Attributes that could not be converted

What fails leaves nothing behind: the attribute is still there, and neither the stylesheet nor the budget knows of it.
The one trace is an identifier that was generated in the place of an empty one.

* **`exists_converted_run`** says so of every element that a run renders. The record of what was stored makes up all
  that the run adds to the stylesheet and takes from the budget.
* **`identifier_lost_fullPage`** is the trace.
-/

namespace AmpTuner.Rendering

open Markup (Element Document)
open Vocabulary (layoutMarker)
open Css (Length)

variable {page : Page} {el el' : Element}

/-- Rendering writes other attributes than those that the attempts are about. -/
theorem Converted.rendered {tried : List Attempt} {stored : List Stored} {issues : List Issue}
    (h : Converted tried stored issues el el') (hnames : ∀ a ∈ tried, a.name ∉ renderedNames) (layout : Layout)
    (width height : Length) : Converted tried stored issues el (rendered layout width height el') := by
  have hother {name : String} (hname : name ∉ renderedNames) :
      (Rendering.rendered layout width height el').attribute? name = el'.attribute? name :=
    attribute?_rendered layout width height el' hname
  have hid : (Rendering.rendered layout width height el').attribute? "id" = el'.attribute? "id" := hother (by decide)
  exact
    { tag := (tag_rendered layout width height el').trans h.tag
      names := h.names
      gone := fun r hr => by
        obtain ⟨a, ha, hname⟩ := List.mem_map.mp (h.names.subset (List.mem_map_of_mem hr))
        rw [hother (hname ▸ hnames a ha), h.gone r hr]
      source := fun r hr => by
        obtain ⟨rules, ident, hmem, hrules, hident⟩ := h.source r hr
        exact ⟨rules, ident, hmem, hrules, hid.trans hident⟩
      fails := fun a ha hnot => by
        rw [hother (hnames a ha)]
        exact h.fails a ha hnot
      identifier := by
        rw [hid]
        exact h.identifier }

/-- Only what is rendered leaves anything in the stylesheet. -/
theorem Ends.exists_plan {due : Prop} {issues : List Issue} {t : Turn} (h : Ends due el issues t)
    (hstored : t.stored ≠ []) : due ∧ ∃ p, plan el = .ok p := by
  cases h with
  | passed _ => exact absurd rfl hstored
  | rejected _ _ => exact absurd rfl hstored
  | rendered hdue hplan _ => exact ⟨hdue, _, hplan⟩

/-- And what is rendered has been converted. -/
theorem Ends.converted {due : Prop} {issues : List Issue} {t : Turn} {p : Plan} (h : Ends due el issues t) (hdue : due)
    (hplan : plan el = .ok p) : Converted (attempts el p.layout) t.stored issues el t.left := by
  cases h with
  | passed hnot => exact absurd hdue hnot
  | rejected _ hplan' =>
    rw [hplan] at hplan'
    cases hplan'
  | rendered _ hplan' hconverted =>
    rw [hplan] at hplan'
    obtain rfl := Except.ok.inj hplan'
    have hapart : ∀ name ∈ ["sizes", "heights", "media"], name ∉ renderedNames := by decide
    exact hconverted.rendered (fun a ha => hapart _ (name_mem_of_mem_attempts ha)) _ _ _

/-- On every page that is not marked, a run leaves of each element that it renders what `Converted` says. All that it
takes from the budget was stored in place of an attribute of such an element, and all that it adds to the stylesheet,
which is still on the page when an attempt failed. -/
theorem exists_converted_run (h : page.WellFormed) (hroot : page.hasAttribute page.root layoutMarker = false)
    (s : Settings.Rendering) :
    ∃ (ρ : NodeId → NodeId) (stored : NodeId → List Stored), Traced page (run s page).page ρ
      ∧ (∀ x y, page.Has x → page.Has y → ρ x = ρ y → x = y)
      ∧ (run s page).page.budget.used = page.budget.used + Stored.bytes (page.components.flatMap stored)
      ∧ (∀ x ∈ page.components, stored x ≠ [] →
        ∃ el p, page.element? x = some el ∧ IsDue page x el ∧ plan el = .ok p)
      ∧ ∀ x ∈ page.components, ∀ el p, page.element? x = some el → IsDue page x el → plan el = .ok p →
        ∃ el', (run s page).page.element? (ρ x) = some el'
          ∧ Converted (attempts el p.layout) (stored x) (run s page).issues el el'
          ∧ ((∃ a ∈ attempts el p.layout, a.name ∉ Stored.names (stored x)) →
            (run s page).page.customText = page.customText ++ Stored.text (page.components.flatMap stored)) := by
  obtain ⟨ρ, turn, hsettles⟩ := exists_settles_run h hroot s
  refine ⟨ρ, fun x => (turn x).stored, hsettles.traced, hsettles.injective, hsettles.used, fun x hx hstored => ?_,
    fun x hx el p hel hdue hplan => ?_⟩
  · obtain ⟨el, hel, -⟩ := of_mem_components h hx
    obtain ⟨hdue, p, hplan⟩ := (hsettles.ends x hx el hel).exists_plan hstored
    exact ⟨el, p, hel, hdue, hplan⟩
  · have hconverted := (hsettles.ends x hx el hel).converted hdue hplan
    refine ⟨_, hsettles.left x hx, hconverted, ?_⟩
    rintro ⟨a, ha, hnot⟩
    exact hsettles.text (hconverted.fails a ha hnot).1.exists_vetoes

/-- An image whose list of sizes lacks a default, and a media query that is converted all the same. -/
def unsizedDocument : Document :=
  ⟨none, [.element ⟨"amp-img", [⟨"srcset", "a"⟩, ⟨"sizes", "b,"⟩, ⟨"media", "print"⟩, ⟨"layout", "fill"⟩]⟩ []]⟩

/-- The page of that document. -/
def unsizedPage : Page := .ofDocument unsizedDocument

/-- On this page one attribute fails and stays, while the other becomes a rule. -/
theorem exists_converted_unsizedPage :
    (∃ (ρ : NodeId → NodeId) (stored : NodeId → List Stored), Traced unsizedPage (run {} unsizedPage).page ρ
      ∧ (run {} unsizedPage).page.budget.used = Stored.bytes (unsizedPage.components.flatMap stored)
      ∧ ∀ x ∈ unsizedPage.components, ∀ el p, unsizedPage.element? x = some el → IsDue unsizedPage x el →
        plan el = .ok p → ∃ el', (run {} unsizedPage).page.element? (ρ x) = some el'
          ∧ Converted (attempts el p.layout) (stored x) (run {} unsizedPage).issues el el')
      ∧ (run {} unsizedPage).issues
        = [.invalidAttribute "amp-img" "sizes" "missing default value", .notConverted "amp-img" "sizes"]
      ∧ (run {} unsizedPage).page.customText = "@media not print{#i-amp-0{display:none}}" := by
  have hwell : unsizedPage.WellFormed := Page.ofDocument_wellFormed unsizedDocument
  have hroot : unsizedPage.hasAttribute unsizedPage.root layoutMarker = false := by decide +kernel
  have hused : unsizedPage.budget.used = 0 := by decide +kernel
  obtain ⟨ρ, stored, htraced, -, hbytes, -, hall⟩ := exists_converted_run hwell hroot {}
  rw [hused, Nat.zero_add] at hbytes
  refine ⟨⟨ρ, stored, htraced, hbytes, fun x hx el p hel hdue hplan => ?_⟩, by decide +kernel, by decide +kernel⟩
  obtain ⟨el', hel', hconverted, -⟩ := hall x hx el p hel hdue hplan
  exact ⟨el', hel', hconverted⟩

/-! ## The identifier that stays -/

/-- A stylesheet that takes the whole budget, and an image with an empty identifier whose rule finds no room. -/
def fullDocument : Document :=
  ⟨none, [.element ⟨"head", []⟩
      [.element ⟨"style", [⟨"amp-custom", ""⟩]⟩ [.text (String.ofList (List.replicate Css.maxCustomBytes 'a'))]],
    .element ⟨"amp-img", [⟨"id", ""⟩, ⟨"media", "print"⟩, ⟨"layout", "fill"⟩]⟩ []]⟩

def fullPage : Page := .ofDocument fullDocument

/-- A row of a letter of one byte takes as many bytes as it has letters. -/
theorem utf8ByteSize_replicate (n : Nat) : (String.ofList (List.replicate n 'a')).utf8ByteSize = n := by
  induction n with
  | zero => rfl
  | succ n ih =>
    rw [List.replicate_succ, String.ofList_cons, String.utf8ByteSize_append, ih, String.utf8ByteSize_singleton,
      Nat.add_comm]
    rfl

/-- The counting of the bytes is done here: the text is too long to be computed with. -/
theorem fullPage_eq :
    fullPage = { fullDocument.nodes.foldl Page.placeNode (.empty none) with
      budget := .ofUsed Css.maxCustomBytes Css.maxCustomBytes } := by
  let placed : Page := fullDocument.nodes.foldl Page.placeNode (.empty none)
  have hstyle : placed.customStyle? = some ⟨3⟩ := by decide +kernel
  have htext : placed.textContent ⟨3⟩ = String.join [String.ofList (List.replicate Css.maxCustomBytes 'a')] := by
    rw [Page.textContent]
    rfl
  have hbytes : placed.customBytes = Css.maxCustomBytes := by
    rw [Page.customBytes, hstyle]
    show (placed.textContent ⟨3⟩).utf8ByteSize = _
    rw [htext, String.join_cons, String.join_nil, String.append_empty, utf8ByteSize_replicate]
  show ({ placed with budget := .ofUsed Css.maxCustomBytes placed.customBytes } : Page) = _
  rw [hbytes]

/-- The rule is refused and the attribute stays, but in the place of the empty identifier there is the one that was
generated for the rule. -/
theorem identifier_lost_fullPage :
    fullPage.components.map (fullPage.attribute? · "id") = [some ""]
      ∧ (run {} fullPage).page.components.map ((run {} fullPage).page.attribute? · "media") = [some "print"]
      ∧ (run {} fullPage).page.budget.used = fullPage.budget.used
      ∧ (run {} fullPage).page.components.map ((run {} fullPage).page.attribute? · "id") = [some "i-amp-0"] := by
  rw [fullPage_eq]
  decide +kernel

end AmpTuner.Rendering
