import AmpTuner.Proofs.Urls.Rewriting
import AmpTuner.Proofs.Pass.Settled
import AmpTuner.Amp.BundledSpec

/-!
# The document after the pass

A page is a root with a head and a body. The pass writes to the head only, and there each tree gives place to what it
becomes, so that the document can be told from the one before.

* **`Rewrites`** carries the table of elements over to trees, **`Preconnects`** tells when a link is added behind them,
  and **`Rewritten`** puts a document together.
* **`rewrites_treeOf`** goes from the children of the head to their trees, **`exists_preconnects`** adds the link, and
  **`rewritten_run`** puts the two together. Settings that the pass refuses leave the document as it is.
-/

namespace AmpTuner.Urls

open Markup (Element Tree Document)
open Vocabulary

variable {s : Settings.Urls} {page page' : Page} {id x : NodeId} {el el' : Element} {todo : List NodeId}
  {twins : NodeId → List NodeId}

/-! ## Documents -/

/-- What the pass makes of a tree in the head: the same, or the same below another element, with a twin behind it that
has no content. -/
inductive Rewrites (s : Settings.Urls) : Tree → List Tree → Prop where
  | text (content : String) : Rewrites s (.text content) [.text content]
  | comment (content : String) : Rewrites s (.comment content) [.comment content]
  | element {el el' : Element} {twin : Option Element} (children : List Tree) (h : Becomes s el el' twin) :
      Rewrites s (.element el children) (.element el' children :: twin.toList.map (.element · []))

/-- The link that prepares the browser for the host. -/
def preconnectLink : Element :=
  .make "link" [("rel", "preconnect"), ("href", cdnHost), ("crossorigin", "")]

theorem distinct_preconnectLink : preconnectLink.Distinct := Element.distinct_make _ _

/-- The links that the pass adds to a head with these trees: one, if anything comes from the network and none is there
yet. -/
inductive Preconnects (s : Settings.Urls) (trees : List Tree) : List Tree → Prop where
  | none (h : isSelfHosted s = true ∨ ∃ el children, .element el children ∈ trees ∧ isPreconnect el = true) :
      Preconnects s trees []
  | one (hnetwork : isSelfHosted s = false)
      (h : ∀ el children, .element el children ∈ trees → isPreconnect el = false) :
      Preconnects s trees [.element preconnectLink []]

/-- Everything outside the head stays. In the head each tree is rewritten in its place. -/
inductive Rewritten (s : Settings.Urls) : Document → Document → Prop where
  | mk {doctype : Option String} {root head : Element} {trees links : List Tree} {body : Tree} {outs : List (List Tree)}
      (hroot : root.tag = "html") (hhead : head.tag = "head") (h : List.Forall₂ (Rewrites s) trees outs)
      (hlinks : Preconnects s outs.flatten links) :
      Rewritten s ⟨doctype, [.element root [.element head trees, body]]⟩
        ⟨doctype, [.element root [.element head (outs.flatten ++ links), body]]⟩

/-! ## Trees away from the head -/

/-- The node is neither in the head nor above it. -/
structure IsAway (page : Page) (x : NodeId) : Prop where
  has : page.Has x
  ne_root : x ≠ page.root
  ne_head : x ≠ page.head
  parent? : page.parent? x ≠ some page.head

/-- What is below a node away from the head is away from it too. -/
theorem IsAway.child (h : page.WellFormed) {a c : NodeId} (ha : IsAway page a) (hc : page.parent? c = some a) :
    IsAway page c where
  has := Page.has_of_parent? hc
  ne_root := by
    rintro rfl
    rw [h.parent?_root] at hc
    cases hc
  ne_head := by
    rintro rfl
    rw [h.parent?_head] at hc
    exact ha.ne_root (Option.some.inj hc).symm
  parent? := by
    rw [hc]
    exact fun heq => ha.ne_head (Option.some.inj heq)

/-- The body is away from the head. -/
theorem isAway_body (h : page.WellFormed) : IsAway page page.body where
  has := h.has_body
  ne_root := h.body_ne_root
  ne_head := h.head_ne_body.symm
  parent? := by
    rw [h.parent?_body]
    exact fun heq => h.head_ne_root (Option.some.inj heq).symm

/-- What stands in a child of the head is away from the head. -/
theorem isAway_of_parent? (h : page.WellFormed) {c : NodeId} (hx : page.parent? x = some page.head)
    (hc : page.parent? c = some x) : IsAway page c where
  has := Page.has_of_parent? hc
  ne_root := by
    rintro rfl
    rw [h.parent?_root] at hc
    cases hc
  ne_head := by
    rintro rfl
    rw [h.parent?_head] at hc
    obtain rfl := Option.some.inj hc
    rw [h.parent?_root] at hx
    cases hx
  parent? := by
    rw [hc]
    rintro heq
    obtain rfl := Option.some.inj heq
    rw [h.parent?_head] at hx
    exact h.head_ne_root (Option.some.inj hx).symm

namespace Relocates

variable (hpage : page.WellFormed) (h : Relocates s (page.elementChildren page.head) twins page page')

include hpage h

/-- Trees away from the head are what they were, by induction on their height. -/
theorem treeOf_isAway (hx : IsAway page x) : page'.treeOf x = page.treeOf x := by
  refine hpage.linked.treeOf_congr h.maintains.wellFormed.linked (S := IsAway page)
    (fun a c ha hc => ha.child hpage hc) (fun a ha => h.kind? a ha.has fun hmem => ?_)
    (fun a ha => h.children a ha.has ha.ne_head) hx
  exact ha.parent? (hpage.linked.mem_elementChildren_iff.mp hmem).1

/-- An element that is no child of the head is what it was. -/
theorem element?_of_parent?_ne (hel : page.element? x = some el) (hx : page.parent? x ≠ some page.head) :
    page'.element? x = some el := by
  have hout : x ∉ page.elementChildren page.head := fun hmem => hx (hpage.linked.mem_elementChildren_iff.mp hmem).1
  rw [Page.element?_congr (h.kind? x (Page.has_of_element? hel) hout), hel]

/-- The root is what it was. -/
theorem element?_root (hroot : page.element? page.root = some el) : page'.element? page'.root = some el := by
  rw [h.frame.root]
  refine h.element?_of_parent?_ne hpage hroot fun hp => ?_
  rw [hpage.parent?_root] at hp
  cases hp

theorem element?_head (hhead : page.element? page.head = some el) : page'.element? page'.head = some el := by
  rw [h.frame.head]
  exact h.element?_of_parent?_ne hpage hhead fun hp => hpage.linked.acyclic _ (.of_parent? hp)

omit hpage in
theorem treeOf_twin {t : NodeId} {twin : Element} (ht : t ∈ twins x) (htwin : page'.element? t = some twin) :
    page'.treeOf t = .element twin [] := by
  rw [h.maintains.wellFormed.linked.treeOf_element (Page.element?_eq_some_iff.mp htwin), (h.fresh x t ht).2,
    List.map_nil]

/-- A child of the head and its twin show the tree that was there rewritten. -/
theorem rewrites_treeOf (hx : x ∈ page.children page.head) :
    Rewrites s (page.treeOf x) ((x :: twins x).map page'.treeOf) := by
  have hlinked := h.maintains.wellFormed.linked
  have hparent := (hpage.linked.mem_children_iff _ _).mp hx
  have hhas := Page.has_of_parent? hparent
  obtain ⟨kind, hkind⟩ := Page.exists_kind?_of_has hhas
  -- texts and comments are passed over
  have hkept (hel : page.element? x = none) : page'.kind? x = some kind ∧ twins x = [] := by
    have hout : x ∉ page.elementChildren page.head := fun hmem => by
      obtain ⟨-, el, hsome⟩ := hpage.linked.mem_elementChildren_iff.mp hmem
      rw [hel] at hsome
      cases hsome
    exact ⟨(h.kind? x hhas hout).trans hkind, h.twins_eq_nil x hout⟩
  cases kind with
  | text content =>
    obtain ⟨hkind', htwins⟩ := hkept (by rw [Page.element?, hkind]; rfl)
    rw [htwins, List.map_singleton, hpage.linked.treeOf_text hkind, hlinked.treeOf_text hkind']
    exact .text content
  | comment content =>
    obtain ⟨hkind', htwins⟩ := hkept (by rw [Page.element?, hkind]; rfl)
    rw [htwins, List.map_singleton, hpage.linked.treeOf_comment hkind, hlinked.treeOf_comment hkind']
    exact .comment content
  | element el =>
    have hmem := hpage.linked.mem_elementChildren_iff.mpr ⟨hparent, el, Page.element?_eq_some_iff.mpr hkind⟩
    obtain ⟨el₀, el', twin, hel, hel', hbecomes, htwins⟩ := h.becomes x hmem
    obtain rfl : el = el₀ := Option.some.inj ((Page.element?_eq_some_iff.mpr hkind).symm.trans hel)
    have hne : x ≠ page.head := fun heq => hpage.linked.acyclic x (.of_parent? (heq ▸ hparent))
    have hbelow : (page.children x).map page'.treeOf = (page.children x).map page.treeOf :=
      List.map_congr_left fun c hc => h.treeOf_isAway hpage
        (isAway_of_parent? hpage hparent ((hpage.linked.mem_children_iff _ _).mp hc))
    have htrees : (twins x).map page'.treeOf = twin.toList.map (.element · []) := by
      cases twin with
      | none => rw [List.map_eq_nil_iff.mp htwins]; rfl
      | some twin =>
        obtain ⟨t, ht, htwin⟩ := List.map_eq_singleton_iff.mp htwins
        rw [ht, List.map_singleton, h.treeOf_twin (x := x) (ht ▸ List.mem_singleton_self t) htwin]
        rfl
    rw [List.map_cons, hlinked.treeOf_element (Page.element?_eq_some_iff.mp hel'), h.children x hhas hne, hbelow,
      htrees, hpage.linked.treeOf_element hkind]
    exact .element _ hbecomes

/-- The trees of the head after the loop. -/
theorem forall₂_treeOf : List.Forall₂ (Rewrites s) ((page.children page.head).map page.treeOf)
    ((page.children page.head).map fun x => (x :: twins x).map page'.treeOf) := by
  rw [List.forall₂_map_left_iff, List.forall₂_map_right_iff, List.forall₂_same]
  exact fun x hx => h.rewrites_treeOf hpage hx

omit hpage in
theorem map_treeOf_children_head : (page'.children page'.head).map page'.treeOf
    = ((page.children page.head).map fun x => (x :: twins x).map page'.treeOf).flatten := by
  rw [h.frame.head, h.children_head, List.map_flatMap, List.flatMap_def]

end Relocates

/-! ## Putting a document together -/

/-- The document of a well-formed page is its root, with the trees of the head's children and of the body below it. -/
theorem toDocument_eq (h : page.WellFormed) {root head : Element} (hroot : page.element? page.root = some root)
    (hhead : page.element? page.head = some head) : page.toDocument = ⟨page.doctype,
      [.element root [.element head ((page.children page.head).map page.treeOf), page.treeOf page.body]]⟩ := by
  rw [Page.toDocument, h.linked.treeOf_element (Page.element?_eq_some_iff.mp hroot), h.children_root, List.map_cons,
    List.map_singleton, h.linked.treeOf_element (Page.element?_eq_some_iff.mp hhead)]

/-- An element among trees is that of a node. -/
theorem exists_mem_treeOf_iff (h : page.Linked) {p : Element → Bool} :
    (∃ el children, .element el children ∈ (page.children id).map page.treeOf ∧ p el = true)
      ↔ ∃ x ∈ page.children id, page.isElement x p = true := by
  constructor
  · rintro ⟨el, children, hmem, hp⟩
    obtain ⟨x, hx, htree⟩ := List.mem_map.mp hmem
    refine ⟨x, hx, Page.isElement_iff.mpr ⟨el, ?_, hp⟩⟩
    obtain ⟨kind, hkind⟩ := Page.exists_kind?_of_has (h.has_child hx)
    rw [Page.element?_eq_some_iff, hkind]
    cases kind with
    | text content => rw [h.treeOf_text hkind] at htree; cases htree
    | comment content => rw [h.treeOf_comment hkind] at htree; cases htree
    | element el' =>
      rw [h.treeOf_element hkind] at htree
      rw [(Tree.element.inj htree).1]
  · rintro ⟨x, hx, hp⟩
    obtain ⟨el, hel, hp⟩ := Page.isElement_iff.mp hp
    exact ⟨el, (page.children x).map page.treeOf,
      List.mem_map.mpr ⟨x, hx, h.treeOf_element (Page.element?_eq_some_iff.mp hel)⟩, hp⟩

theorem addPreconnect_eq (page : Page) : addPreconnect page
    = if (page.elementChildren page.head).any (page.isElement · isPreconnect) then page
      else page.attachNew (.element preconnectLink) page.head (· ++ [page.next]) := rfl

theorem any_isPreconnect_iff (h : page.Linked) :
    (page.elementChildren page.head).any (page.isElement · isPreconnect) = true
      ↔ ∃ el children, .element el children ∈ (page.children page.head).map page.treeOf ∧ isPreconnect el = true := by
  rw [RuntimeCss.any_elementChildren_iff, exists_mem_treeOf_iff h]

/-- The link at the end of the head. -/
theorem toDocument_attachNew (h : page.WellFormed) {root head link : Element}
    (hroot : page.element? page.root = some root) (hhead : page.element? page.head = some head)
    (hlink : link.Distinct) :
    (page.attachNew (.element link) page.head (· ++ [page.next])).toDocument = ⟨page.doctype,
      [.element root [.element head ((page.children page.head).map page.treeOf ++ [.element link []]),
        page.treeOf page.body]]⟩ := by
  have hadded := h.maintains_attachNew_head hlink (isPlacement_append page.next)
  have hframe : page.SameFrame (page.attachNew (.element link) page.head (· ++ [page.next])) :=
    Page.attachNew_sameFrame
  have hkinds : page.SameKinds (page.attachNew (.element link) page.head (· ++ [page.next])) :=
    Page.attachNew_sameKinds
  have hnext : (page.attachNew (.element link) page.head (· ++ [page.next])).kind? page.next = some (.element link) :=
    Page.kind?_attachNew.trans (if_pos rfl)
  have hchildren (x : NodeId) : (page.attachNew (.element link) page.head (· ++ [page.next])).children x
      = if x = page.head then page.children x ++ [page.next] else page.children x :=
    h.linked.children_attachNew h.has_head
  generalize page.attachNew (.element link) page.head (· ++ [page.next]) = page' at *
  have htree (x : NodeId) (hx : IsAway page x ∨ page.parent? x = some page.head) : page'.treeOf x = page.treeOf x := by
    refine h.linked.treeOf_congr hadded.wellFormed.linked
      (S := fun x => IsAway page x ∨ page.parent? x = some page.head) (fun a c ha hc => .inl ?_) (fun a ha => ?_)
      (fun a ha => ?_) hx
    · exact ha.elim (fun ha => ha.child h hc) (fun ha => isAway_of_parent? h ha hc)
    · exact hkinds.kind? a (ha.elim (·.has) Page.has_of_parent?)
    · rw [hchildren, if_neg]
      rcases ha with ha | ha
      · exact ha.ne_head
      · exact fun heq => h.linked.acyclic a (.of_parent? (heq ▸ ha))
  have hnew : page'.treeOf page.next = .element link [] := by
    rw [hadded.wellFormed.linked.treeOf_element hnext, hchildren, if_neg (Page.ne_next_of_has h.has_head).symm,
      Page.children_of_not_has Page.not_has_next, List.map_nil]
  have hall : (page.children page.head).map page'.treeOf = (page.children page.head).map page.treeOf :=
    List.map_congr_left fun x hx => htree x (.inr ((h.linked.mem_children_iff _ _).mp hx))
  rw [toDocument_eq hadded.wellFormed (hframe.root.symm ▸ hkinds.element? hroot)
      (hframe.head.symm ▸ hkinds.element? hhead), hframe.doctype, hframe.head, hframe.body, hchildren, if_pos rfl,
    List.map_append, List.map_singleton, hnew, hall, htree page.body (.inl (isAway_body h))]

/-- The link, if there is to be one, comes last in the head. -/
theorem exists_preconnects (h : page.WellFormed) {root head : Element} (hroot : page.element? page.root = some root)
    (hhead : page.element? page.head = some head) : ∃ links,
      Preconnects s ((page.children page.head).map page.treeOf) links
        ∧ (if isSelfHosted s then page else addPreconnect page).toDocument = ⟨page.doctype,
          [.element root [.element head ((page.children page.head).map page.treeOf ++ links),
            page.treeOf page.body]]⟩ := by
  have hsame : page.toDocument = ⟨page.doctype,
      [.element root [.element head ((page.children page.head).map page.treeOf ++ []), page.treeOf page.body]]⟩ := by
    rw [List.append_nil, toDocument_eq h hroot hhead]
  split
  · next hself => exact ⟨[], .none (.inl hself), hsame⟩
  · next hnetwork =>
    rw [addPreconnect_eq]
    split
    · next hany => exact ⟨[], .none (.inr ((any_isPreconnect_iff h.linked).mp hany)), hsame⟩
    · next hany =>
      refine ⟨[.element preconnectLink []], .one (Bool.eq_false_iff.mpr hnetwork) fun el children hmem => ?_,
        toDocument_attachNew h hroot hhead distinct_preconnectLink⟩
      by_contra hel
      exact hany ((any_isPreconnect_iff h.linked).mpr ⟨el, children, hmem, Bool.of_not_eq_false hel⟩)

/-! ## The pass -/

/-- With settings that are accepted, the pass goes over the head's children and then sees to the link, unless the page
hosts everything itself. -/
theorem run_of_accepted (hhost : ∀ host, s.host = some host → isValidHost host = true) : run s page
    = ⟨if isSelfHosted s then (page.elementChildren page.head).foldl (relocateChild s) page
       else addPreconnect ((page.elementChildren page.head).foldl (relocateChild s) page), []⟩ := by
  have hfilter : s.host.filter (!isValidHost ·) = none := by
    rw [Option.filter_eq_none_iff]
    intro host hsome
    rw [hhost host hsome]
    decide
  rw [run, hfilter]

/-- A run makes of a document what the relation says, read off the trees. -/
theorem rewritten_run (h : page.WellFormed) (hhost : ∀ host, s.host = some host → isValidHost host = true) :
    Rewritten s page.toDocument (run s page).page.toDocument := by
  have hnodup : (page.elementChildren page.head).Nodup := (h.linked.nodup _).filter _
  obtain ⟨twins, hloop⟩ := exists_relocates_foldl (s := s) h hnodup fun _ hid => hid
  obtain ⟨root, hroot, hrootTag⟩ := Option.map_eq_some_iff.mp h.tag?_root
  obtain ⟨head, hhead, hheadTag⟩ := Option.map_eq_some_iff.mp h.tag?_head
  rw [run_of_accepted hhost]
  generalize (page.elementChildren page.head).foldl (relocateChild s) page = moved at hloop
  -- the loop, and the link behind it
  obtain ⟨links, hlinks, hdocument⟩ := exists_preconnects (s := s) hloop.maintains.wellFormed
    (hloop.element?_root h hroot) (hloop.element?_head h hhead)
  rw [hloop.map_treeOf_children_head] at hlinks hdocument
  rw [hloop.frame.doctype, hloop.frame.body, hloop.treeOf_isAway h (isAway_body h)] at hdocument
  rw [toDocument_eq h hroot hhead, hdocument]
  exact .mk hrootTag hheadTag (hloop.forall₂_treeOf h) hlinks

/-- Settings for two releases stop the pass, and an invalid host makes it an issue; neither touches the page. Otherwise
the document is rewritten. -/
theorem rewritten_runPasses_urls (h : page.WellFormed) (s : Settings) (r : Resources) (issues : List Issue) :
    (isContradictory s.urls = true →
        Pipeline.runPasses s r [.urls] ⟨page, issues⟩ = ⟨⟨page, issues⟩, some .twoReleases⟩)
      ∧ (isContradictory s.urls = false → ∀ host, s.urls.host = some host → isValidHost host = false →
        Pipeline.runPasses s r [.urls] ⟨page, issues⟩ = ⟨⟨page, issues ++ [.invalidHost host]⟩, none⟩)
      ∧ (isContradictory s.urls = false → (∀ host, s.urls.host = some host → isValidHost host = true) →
        ∃ page', Pipeline.runPasses s r [.urls] ⟨page, issues⟩ = ⟨⟨page', issues⟩, none⟩
          ∧ Rewritten s.urls page.toDocument page'.toDocument) := by
  refine ⟨fun hcontradictory => ?_, fun hcontradictory host hhost hinvalid => ?_, fun hcontradictory hhost => ?_⟩
  · simp only [Pipeline.runPasses, Pass.run, hcontradictory, if_true]
  · have hrun : run s.urls page = ⟨page, [.invalidHost host]⟩ := by
      rw [run, hhost, Option.filter_some, hinvalid]
      rfl
    simp [Pipeline.runPasses, Pass.run, hcontradictory, hrun]
  · refine ⟨(run s.urls page).page, ?_, rewritten_run h hhost⟩
    have hissues : (run s.urls page).issues = [] := by rw [run_of_accepted hhost]
    simp [Pipeline.runPasses, Pass.run, hcontradictory, hissues]

/-- Of everything that may stand in a head: addresses that are relocated and ones that are not, scripts with a twin and
without, and a text. -/
def mixedHead : Document :=
  ⟨none, [.element ⟨"head", []⟩
    [.element ⟨"script", [⟨"async", ""⟩, ⟨"src", "https://cdn.ampproject.org/v0.js"⟩]⟩ [],
      .element ⟨"script", [⟨"src", "https://cdn.ampproject.org/v0/amp-bind-0.1.js"⟩, ⟨"nomodule", ""⟩]⟩ [],
      .element ⟨"script", [⟨"src", "https://cdn.ampproject.org/rtv/012105150310000/v0.js"⟩]⟩ [],
      .element ⟨"script", [⟨"src", "https://cdn.ampproject.organic/v0.js"⟩]⟩ [],
      .text "between",
      .element ⟨"link", [⟨"rel", "stylesheet"⟩, ⟨"href", "https://cdn.ampproject.org/v0.css"⟩]⟩ [],
      .element ⟨"link", [⟨"rel", "icon"⟩, ⟨"href", "/favicon.ico"⟩]⟩ []]]⟩

/-- A head with a script, a style and a link shows the twin and the one preconnect. -/
theorem rewritten_runPasses_urls_mixedHead :
    let page := Page.ofDocument mixedHead
    let s : Settings := { urls := { longTerm := true, modules := true } }
    page.WellFormed ∧ ∃ page', Pipeline.runPasses s ⟨.bundled, Fetch.offline⟩ [.urls] ⟨page, []⟩ = ⟨⟨page', []⟩, none⟩
      ∧ Rewritten s.urls page.toDocument page'.toDocument := by
  have h := Page.ofDocument_wellFormed mixedHead
  exact ⟨h, (rewritten_runPasses_urls h { urls := { longTerm := true, modules := true } } ⟨.bundled, Fetch.offline⟩
    []).2.2 (by decide) fun _ hhost => nomatch hhost⟩

/-- A script with an address and a text of its own. -/
def inlineScript : Document :=
  ⟨none, [.element ⟨"head", []⟩
    [.element ⟨"script", [⟨"src", "https://cdn.ampproject.org/v0.js"⟩]⟩ [.text "x"]]]⟩

/-- The twin does not get the text. -/
theorem textContent_twin_inlineScript :
    let page := Page.ofDocument inlineScript
    let page' := (run { modules := true } page).page
    page.WellFormed ∧ ∃ script twin link, page'.children page'.head = [script, twin, link]
      ∧ page'.attribute? twin "src" = some "https://cdn.ampproject.org/v0.mjs"
      ∧ page'.attribute? twin "type" = some "module"
      ∧ page'.textContent script = "x" ∧ page'.textContent twin = "" :=
  ⟨Page.ofDocument_wellFormed inlineScript, ⟨3⟩, ⟨5⟩, ⟨6⟩, by decide +kernel⟩

end AmpTuner.Urls
