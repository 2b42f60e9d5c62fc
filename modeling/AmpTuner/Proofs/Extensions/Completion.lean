import AmpTuner.Proofs.Extensions.Regathering
import AmpTuner.Proofs.Pass.Sparing

/-!
# Nothing missing after the pass

The pass puts in what is required and drops what is not. Of a page with the same demand and the same scripts there is
then nothing missing and nothing to spare.

* **`spares_run`**: to the pass in front of this one and the boilerplate it is a change of scripts.
* **`sameDemand_of_evolves`**: the passes behind it leave the demand as it was.
* **`complete_of_evolves`**: so behind them there is nothing missing and nothing to spare (`Complete`).
-/

namespace AmpTuner.Extensions

open Markup (Element)
open Vocabulary (extensionName?)

variable {s : Settings.Extensions} {spec : Spec} {lost : Element → Prop} {page page' : Page} {ρ : NodeId → NodeId}
  {groups : List Group} {x : String} {e n : NodeId} {el : Element}

/-! ## A change of scripts -/

section Run

variable (h : page.WellFormed)

include h

/-- The block consists of scripts. -/
theorem not_mem_block_of_tag (hrename : s.renameBind = false) (hel : page.element? n = some el)
    (htag : el.tag ≠ "script") : n ∉ runtimeScripts page ++ nodesOf (retained s spec page) := by
  intro hn
  have hscript : (run s spec page).page.tag? n = some "script" := by
    rw [Page.tag?, element?_run, ← Page.tag?, tag?_of_mem_block h hn]
  rw [Page.tag?_congr (kind?_run_of_has h hrename (Page.has_of_element? hel)), Page.tag?, hel] at hscript
  exact htag (Option.some.inj hscript)

/-- Only scripts are taken out. -/
theorem parent?_cleared_of_tag (hel : page.element? n = some el) (htag : el.tag ≠ "script") :
    (cleared page).parent? n = page.parent? n := by
  rw [cleared, Page.parent?_detachAll, if_neg]
  intro hn
  have hscript := tag?_of_mem_taken h.linked hn
  rw [Page.tag?, hel] at hscript
  exact htag (Option.some.inj hscript)

/-- What is neither a script nor inside one is below the head with or without the scripts. -/
theorem above_cleared_head_iff (hliteral : page.HeadLiteral) (hel : page.element? n = some el)
    (htag : el.tag ≠ "script") : (cleared page).Above page.head n ↔ page.Above page.head n := by
  refine ⟨fun habove => habove.mono fun d p hp => (parent?_cleared_iff.mp hp).1,
    fun habove => above_cleared habove fun m hm => ?_⟩
  have hscript := tag?_of_mem_taken h.linked hm
  refine ⟨?_, fun hinside => ?_⟩
  · rintro rfl
    rw [Page.tag?, hel] at hscript
    exact htag (Option.some.inj hscript)
  · rw [hliteral.element?_of_above h ((mem_taken_iff h.linked).mp hm).1 hscript (by decide) hinside] at hel
    cases hel

variable (hrename : s.renameBind = false)

include hrename

/-- The pass moves and makes nothing but scripts, so that what others look for is spared. -/
theorem spares_run : Spares page (run s spec page).page where
  wellFormed := run_wellFormed h s spec
  root := (run_sameFrame h).root
  head := (run_sameFrame h).head
  origin x q hq := by
    rw [parent?_run h] at hq
    split at hq
    · next hblock =>
      obtain rfl := Option.some.inj hq
      by_cases hx : page.Has x
      · refine .inl ⟨?_, fun el' hel' => .inl ?_⟩
        · rcases List.mem_append.mp hblock with hruntime | hheld
          · exact ((mem_runtimeScripts_iff h.linked).mp hruntime).1
          · obtain ⟨name, hheld⟩ := mem_nodesOf_iff.mp hheld
            rcases origin_of_holds_retained h hheld with hold | ⟨hnew, -⟩
            · exact ((mem_extensionScripts_iff h.linked).mp hold).1
            · exact absurd hx hnew
        · rwa [Page.element?_congr (kind?_run_of_has h hrename hx)] at hel'
      · refine .inr ⟨hx, rfl, .inr ?_⟩
        rw [Page.tag?, element?_run, ← Page.tag?, tag?_of_mem_block h hblock]
    · have hparent := (parent?_cleared_iff.mp hq).1
      refine .inl ⟨hparent, fun el' hel' => .inl ?_⟩
      rwa [Page.element?_congr (kind?_run_of_has h hrename (Page.has_of_parent? hparent))] at hel'
  kept x el hel _ htag := by
    refine ⟨by rw [Page.element?_congr (kind?_run_of_has h hrename (Page.has_of_element? hel)), hel], ?_⟩
    rw [parent?_run h, if_neg (not_mem_block_of_tag h hrename hel htag), parent?_cleared_of_tag h hel htag]

/-- The head has as many viewports as before. -/
theorem length_viewports_run (hliteral : page.HeadLiteral) (hnamed : spec.extension? "" = none) :
    ((run s spec page).page.elementsWhere (run s spec page).page.head Viewport.isViewport).length
      = (page.elementsWhere page.head Viewport.isViewport).length := by
  have hspares : Spares page (run s spec page).page := spares_run h hrename
  have hplain {el : Element} (hviewport : Viewport.isViewport el = true) : el.tag ≠ "script" := by
    rw [Viewport.isViewport, Bool.and_eq_true, beq_iff_eq] at hviewport
    rw [hviewport.1]
    decide
  -- without the scripts the head is the same
  have hcleared {x : NodeId} : (cleared (run s spec page).page).Above page.head x ↔ (cleared page).Above page.head x :=
    ⟨.mono fun d p hp => (parent?_cleared_run h hnamed).symm.trans hp,
      .mono fun d p hp => (parent?_cleared_run h hnamed).trans hp⟩
  have hafter := hspares.headLiteral h hliteral
  refine Viewport.length_viewports_congr h.linked hspares.wellFormed.linked fun x => ⟨?_, ?_⟩
  · rintro ⟨habove, hviewport⟩
    obtain ⟨el, hel, htag⟩ := Page.isElement_iff.mp hviewport
    rw [← above_cleared_head_iff hspares.wellFormed hafter hel (hplain htag), hspares.head, hcleared] at habove
    have hold := habove.mono fun d p hp => (parent?_cleared_iff.mp hp).1
    obtain ⟨q, hq, -⟩ := Page.above_iff.mp hold
    refine ⟨hold, ?_⟩
    rwa [Page.isElement_congr (Page.element?_congr (kind?_run_of_has h hrename (Page.has_of_parent? hq)))] at hviewport
  · rintro ⟨habove, hviewport⟩
    obtain ⟨el, hel, htag⟩ := Page.isElement_iff.mp hviewport
    have hel' : (run s spec page).page.element? x = some el := by
      rw [Page.element?_congr (kind?_run_of_has h hrename (Page.has_of_element? hel)), hel]
    rw [← above_cleared_head_iff h hliteral hel (hplain htag), ← hcleared, ← hspares.head,
      above_cleared_head_iff hspares.wellFormed hafter hel' (hplain htag)] at habove
    exact ⟨habove, Page.isElement_iff.mpr ⟨el, hel', htag⟩⟩

end Run

/-! ## Demand through changes of other passes -/

section Evolves

variable (h : Evolves lost page page' ρ) (hpage : page.WellFormed)

include h hpage

/-- A change that leaves the scripts of the head alone leaves the same scripts to be taken. -/
theorem mem_taken_iff_of_evolves : n ∈ taken page' ↔ n ∈ taken page := by
  rw [mem_taken_iff h.wellFormed.linked, mem_taken_iff hpage.linked, h.head]
  simp only [← exists_and_left, ← and_assoc]
  refine exists_congr fun el => and_congr_left fun hscript => h.headScript_iff hpage ?_
  rcases hscript with hruntime | ⟨x, hname⟩
  · simp only [Vocabulary.isRuntimeScript, Bool.and_eq_true, beq_iff_eq] at hruntime
    exact hruntime.1.1
  · exact tag_of_extensionName? hname

theorem mem_extensionScripts_iff_of_evolves : (x, n) ∈ extensionScripts page' ↔ (x, n) ∈ extensionScripts page := by
  rw [mem_extensionScripts_iff h.wellFormed.linked, mem_extensionScripts_iff hpage.linked, h.head]
  simp only [← exists_and_left, ← and_assoc]
  exact exists_congr fun el => and_congr_left fun hname => h.headScript_iff hpage (tag_of_extensionName? hname)

theorem map_of_mem_taken (hn : n ∈ taken page) : ρ n = n := by
  obtain ⟨el, hel, htag⟩ := Option.map_eq_some_iff.mp (tag?_of_mem_taken hpage.linked hn)
  exact h.fixed n el hel (by rw [htag]; decide)

/-- An element in reach was in reach, or it is padding. -/
theorem inReach_of_evolves {el' : Element} (he : InReach page' e) (hel' : page'.element? e = some el') :
    (∃ e el, InReach page e ∧ page.element? e = some el ∧ Resembles el el') ∨ IsPadding el' := by
  have hattached : page'.Attached e := .inr he.1
  rcases h.origin e el' hel' hattached with ⟨y, hy, rfl⟩ | hpadding
  · obtain ⟨el, hel⟩ := Option.isSome_iff_exists.mp hy
    obtain ⟨el'', hel'', hres⟩ := h.resembles y el hel
    obtain rfl := Option.some.inj (hel'.symm.trans hel'')
    refine .inl ⟨y, el, ⟨?_, fun n hn => ?_⟩, hel, hres⟩
    · refine (h.toImage.attached hpage.linked (Page.has_of_element? hel) hattached).resolve_left ?_
      rintro rfl
      obtain ⟨root, hroot, htag⟩ := Option.map_eq_some_iff.mp hpage.tag?_root
      have hself : ρ page.root = page.root := h.fixed _ root hroot (by rw [htag]; decide)
      have habove := he.1
      rw [hself, h.root] at habove
      exact h.wellFormed.linked.acyclic _ habove
    · obtain ⟨hne, hnot⟩ := he.2 n ((mem_taken_iff_of_evolves h hpage).mpr hn)
      have hself := map_of_mem_taken h hpage hn
      refine ⟨fun heq => hne (heq ▸ hself.symm), fun habove => hnot ?_⟩
      have hmapped := h.toImage.above hpage h.wellFormed hattached habove
      rwa [hself] at hmapped
  · exact .inr hpadding

/-- An element in reach stays in reach, or it is lost. -/
theorem inReach_map_of_evolves (he : InReach page e) (hel : page.element? e = some el) :
    InReach page' (ρ e) ∨ lost el := by
  refine (h.stays e el hel (.inr he.1)).imp_left fun hattached => ⟨?_, fun n hn => ?_⟩
  · refine hattached.resolve_left fun heq => ?_
    have hroot := h.toImage.map_root e (Page.has_of_element? hel) (heq.trans h.root)
    exact hpage.linked.acyclic _ (hroot ▸ he.1)
  · obtain ⟨hne, hnot⟩ := he.2 n ((mem_taken_iff_of_evolves h hpage).mp hn)
    obtain ⟨script, hscript, htag⟩ := Option.map_eq_some_iff.mp (tag?_of_mem_taken h.wellFormed.linked hn)
    have hplain : Markup.isComponent script.tag = false := by
      rw [htag]
      decide
    refine ⟨?_, fun habove => hnot (h.above_of_plain hpage (Page.has_of_element? hel) hscript hplain habove)⟩
    rintro rfl
    exact hne (h.eq_of_plain (by rw [hel]; rfl) hscript hplain)

/-- A change that loses only inert elements leaves the demand as it is. -/
theorem sameDemand_of_evolves (hrename : s.renameBind = false) (hspec : spec.Quiet) (hliteral : page.HeadLiteral)
    (hlost : ∀ el, lost el → Inert spec el) : SameDemand s spec page page' := by
  have hraw : Markup.isRawText "script" = true := by decide
  -- a script of the head configures what it configured
  have hconfiguration {n : NodeId} {el : Element} (hparent : page.parent? n = some page.head)
      (hel : page.element? n = some el) (htag : el.tag = "script") : configuration page' n = configuration page n := by
    have hel' := h.script n el hel htag
    refine configuration_congr (by rw [hel', hel]) (h.textContent hpage hliteral hparent hel (by rw [htag]; exact hraw)
      hel' (h.headScript n hparent (by rw [Page.tag?, hel, ← htag]; rfl)).2)
  refine ⟨fun x => ⟨fun hwants => ?_, fun hwants => ?_⟩, fun x => ⟨?_, ?_⟩⟩
  · cases hwants with
    | @configured n hn hfree hx =>
      obtain ⟨el, hel, htag⟩ := exists_script_of_configuration hx
      obtain ⟨hn, hel⟩ := (h.headScript_iff hpage htag).mp ⟨h.head ▸ hn, hel⟩
      exact .configured hn (fun hmem => hfree ((mem_taken_iff_of_evolves h hpage).mpr hmem))
        (hconfiguration hn hel htag ▸ hx)
    | element he hel hx =>
      rw [written_eq hrename] at hx
      rcases inReach_of_evolves h hpage he hel with ⟨e, old, he, hold, hres⟩ | hpadding
      · exact .element he hold (by rw [written_eq hrename, ← hres.requiredBy hspec]; exact hx)
      · rw [(hpadding.inert hspec).requires] at hx
        cases hx
  · cases hwants with
    | @configured n hn hfree hx =>
      obtain ⟨el, hel, htag⟩ := exists_script_of_configuration hx
      obtain ⟨hn', -⟩ := (h.headScript_iff hpage htag).mpr ⟨hn, hel⟩
      exact .configured (by rw [h.head, hn']) (fun hmem => hfree ((mem_taken_iff_of_evolves h hpage).mp hmem))
        ((hconfiguration hn hel htag).symm ▸ hx)
    | element he hel hx =>
      rw [written_eq hrename] at hx
      rcases inReach_map_of_evolves h hpage he hel with he' | hgone
      · obtain ⟨el', hel', hres⟩ := h.resembles _ _ hel
        exact .element he' hel' (by rw [written_eq hrename, hres.requiredBy hspec]; exact hx)
      · rw [(hlost _ hgone).requires] at hx
        cases hx
  · rintro ⟨e, el, he, hel, hcomponent, htag⟩
    rcases inReach_of_evolves h hpage he hel with ⟨e, old, he, hold, hres⟩ | hpadding
    · exact ⟨e, old, he, hold, hres.tag ▸ hcomponent, hres.tag ▸ htag⟩
    · rw [hpadding.isComponent] at hcomponent
      cases hcomponent
  · rintro ⟨e, el, he, hel, hcomponent, htag⟩
    rcases inReach_map_of_evolves h hpage he hel with he' | hgone
    · obtain ⟨el', hel', hres⟩ := h.resembles e el hel
      exact ⟨ρ e, el', he', hel', hres.tag.symm ▸ hcomponent, hres.tag.trans htag⟩
    · rw [(hlost _ hgone).component] at hcomponent
      cases hcomponent

end Evolves

/-! ## Complete -/

section Complete

variable (h : page.WellFormed) (h' : page'.WellFormed) (hnamed : spec.extension? "" = none)
  (hdemand : SameDemand s spec page page')
  (hscripts : ∀ x n, (x, n) ∈ extensionScripts page' ↔ (x, n) ∈ extensionScripts (run s spec page).page)

include h h' hnamed hdemand hscripts

/-- What is demanded of the page after the change was supplied before it. -/
theorem supplied_of_sameDemand (hx : x ∈ (needs s spec page').1) :
    hasGroup (needs s spec page').2 x = true ∨ ∀ e, ¬ Importable s spec x e := by
  by_cases himportable : ∃ e, Importable s spec x e
  · obtain ⟨e, he⟩ := himportable
    have hstocked := stocked_spec s spec h
    have hneeded : x ∈ (needs s spec page).1 :=
      (mem_needs_iff h).mpr ((hdemand.wants x).mp ((mem_needs_iff h').mp hx))
    obtain ⟨n, hheld⟩ := hstocked.filled.exists_holds (hstocked.found x hneeded e he)
    have hscript := (holds_retained_iff h hnamed).mp (holds_retained (hstocked.marked x hneeded) hheld)
    exact .inl (holds_needs.mpr ((hscripts x n).mpr hscript)).hasGroup
  · exact .inr fun e he => himportable ⟨e, he⟩

/-- The groups of the page are those that went back. -/
theorem exists_stocked_iff :
    (∃ g ∈ (stocked s spec page').2, g.name = x) ↔ ∃ g ∈ retained s spec page, g.name = x := by
  have hholds (n : NodeId) : Holds (stocked s spec page').2 x n ↔ Holds (retained s spec page) x n := by
    have hstocked : Holds (stocked s spec page').2 x n ↔ (x, n) ∈ extensionScripts page' :=
      stocked_induction (motive := (Holds · x n ↔ _))
        (fun x hx => supplied_of_sameDemand h h' hnamed hdemand hscripts hx) holds_groupScripts
        fun _ _ hgroups => holds_markUsed.trans hgroups
    rw [hstocked, hscripts, holds_retained_iff h hnamed]
  have hfilled {groups : List Group} (hgroups : Filled groups) :
      (∃ g ∈ groups, g.name = x) ↔ ∃ n, Holds groups x n :=
    ⟨fun hg => hgroups.exists_holds (hasGroup_iff.mpr hg), fun ⟨n, g, hg, hname, _⟩ => ⟨g, hg, hname⟩⟩
  rw [hfilled (stocked_spec s spec h').filled, hfilled (filled_retained h)]
  exact exists_congr hholds

/-- With the same demand and the same scripts, a page that the pass has completed stays complete. -/
theorem complete_of_sameDemand : Complete s spec page' where
  supplied x hx := supplied_of_sameDemand h h' hnamed hdemand hscripts hx
  needed := by
    intro hremove
    have hgroups (x : String) := exists_stocked_iff (x := x) h h' hnamed hdemand hscripts
    have hretained : retained s spec page
        = (stocked s spec page).2.filter (isNeeded (keptAlone (stocked s spec page).2)) := by
      rw [retained, if_pos hremove]
      rfl
    -- groups of one name are marked on both pages or on neither
    have hused {g g' : Group} (hg : g ∈ (stocked s spec page).2) (hg' : g' ∈ (stocked s spec page').2)
        (hname : g'.name = g.name) (hmark : g.used = true) : g'.used = true := by
      rw [used_stocked h' hg', hname, hdemand.wants, hdemand.borne]
      exact (used_stocked h hg).mp hmark
    -- what protects on one page does so on the other
    have hkept {c : String} (hc : c ∈ keptAlone (stocked s spec page).2) : c ∈ keptAlone (stocked s spec page').2 := by
      obtain ⟨g, hg, halone, rfl⟩ := mem_keptAlone_iff.mp hc
      have hneeded : isNeeded (keptAlone (stocked s spec page).2) g = true :=
        isNeeded_iff.mpr (halone.imp_right fun hprotected => ⟨none, hprotected, fun _ hmem => by cases hmem⟩)
      obtain ⟨g', hg', hname⟩ := (hgroups g.name).mpr ⟨g, hretained ▸ List.mem_filter.mpr ⟨hg, hneeded⟩, rfl⟩
      exact mem_keptAlone_iff.mpr
        ⟨g', hg', halone.imp (hused hg hg' hname) fun hprotected => hname ▸ hprotected, hname⟩
    intro g' hg'
    obtain ⟨g, hg, hname⟩ := (hgroups g'.name).mp ⟨g', hg', rfl⟩
    rw [hretained, List.mem_filter] at hg
    rw [isNeeded_iff]
    refine (isNeeded_iff.mp hg.2).imp (hused hg.1 hg' hname.symm) ?_
    rintro ⟨companion, hprotected, hcompanion⟩
    exact ⟨companion, hname ▸ hprotected, fun c hc => hkept (hcompanion c hc)⟩

end Complete

/-- Passes that lose nothing of what is required have nothing to add afterwards. -/
theorem complete_of_evolves (h : page.WellFormed) (hliteral : page.HeadLiteral) (hrename : s.renameBind = false)
    (hspec : spec.Quiet) (hevolves : Evolves lost (run s spec page).page page' ρ)
    (hlost : ∀ el, lost el → Inert spec el) : Complete s spec page' := by
  have hspares : Spares page (run s spec page).page := spares_run h hrename
  have hrun : SameDemand s spec page (run s spec page).page := sameDemand_run h hspec.named
  have hlater : SameDemand s spec (run s spec page).page page' :=
    sameDemand_of_evolves hevolves hspares.wellFormed hrename hspec (hspares.headLiteral h hliteral) hlost
  exact complete_of_sameDemand h hevolves.wellFormed hspec.named
    ⟨fun x => (hlater.wants x).trans (hrun.wants x), fun x => (hlater.borne x).trans (hrun.borne x)⟩
    fun x n => mem_extensionScripts_iff_of_evolves hevolves hspares.wellFormed

end AmpTuner.Extensions
