import AmpTuner.Proofs.Urls.Documents
import AmpTuner.Proofs.Markup.Written

/-!
# The addresses after a second run

A second run finds the twins and the link of the first. It may find addresses to relocate as well: those of the first
run, where these are on the network in turn.

* **`Readdresses`** is what a second run may do to a tree, and **`Rewritten.reruns`** says that it does no more: no twin
  and no link are added.
* **`Settles`** is the condition on an address: it is the same as before, or it is not relocated again.
* **`exists_length_writeAll`** counts what a run adds to the length of the markup, for each address the same. So two
  runs that write the same text have changed nothing, and **`toHtml_run_run_iff`** is exact.
* **`settles_of_network`** and **`settles_of_takesOver`** name settings for which every address settles, so that a
  second run changes nothing (**`toHtml_rerun`**).
-/

namespace AmpTuner

open Markup (Element Tree Document Attribute escapeAttribute)
open Vocabulary

/-- What stands in the second list has a partner in the first. -/
theorem exists_mem_of_forall₂ {α β : Type} {R : α → β → Prop} {as : List α} {bs : List β}
    (h : List.Forall₂ R as bs) {b : β} (hb : b ∈ bs) : ∃ a ∈ as, R a b := by
  induction h with
  | nil => cases hb
  | cons hfirst _ ih =>
    rcases List.mem_cons.mp hb with rfl | hb
    · exact ⟨_, List.mem_cons_self, hfirst⟩
    · obtain ⟨a, ha, hab⟩ := ih hb
      exact ⟨a, List.mem_cons_of_mem _ ha, hab⟩

namespace Urls

variable {s : Settings.Urls} {page page' : Page} {el el' : Element} {twin : Option Element} {tree : Tree}
  {trees trees' outs : List Tree} {rows : List (List Tree)}

/-! ## What a second run finds -/

/-- An element has one address at most. -/
theorem Addressed.unique {name name' path path' : String} (h : Addressed el name path) (h' : Addressed el name' path') :
    name' = name ∧ path' = path := by
  obtain rfl := Option.some.inj (h.named.symm.trans h'.named)
  have heq := Option.some.inj (h.url.symm.trans h'.url)
  exact ⟨rfl, (String.append_right_inj cdnHost).mp heq.symm⟩

/-- The address that a relocation leaves. -/
theorem Addressed.of_set {name name' value path : String} (h : addressName? el.tag = some name)
    (h' : Addressed (el.set name value) name' path) : name' = name ∧ value = cdnHost ++ path := by
  obtain rfl := Option.some.inj (h.symm.trans h'.named)
  have hurl := h'.url
  rw [Element.attribute?_set, if_pos rfl] at hurl
  exact ⟨rfl, Option.some.inj hurl⟩

/-- Setting another attribute makes no address. -/
theorem Addressed.of_set_other {name other value path : String} (h : Addressed (el.set other value) name path)
    (hother : other ∉ ["src", "href"]) : Addressed el name path := by
  have hne : name ≠ other := by
    rintro rfl
    rcases eq_of_addressName? h.named with rfl | rfl <;> exact hother (by decide)
  refine ⟨h.named, ?_, h.plain⟩
  rw [← h.url, Element.attribute?_set_of_ne hne]

/-- The link that prepares the browser has no path behind the host. -/
theorem not_addressed_of_isPreconnect (h : isPreconnect el = true) (name path : String) : ¬ Addressed el name path := by
  intro h'
  simp only [isPreconnect, Bool.and_eq_true, beq_iff_eq] at h
  obtain ⟨⟨htag, -⟩, hhref⟩ := h
  have hname := h'.named
  rw [htag] at hname
  obtain rfl := Option.some.inj hname
  have hempty := Option.some.inj (hhref.symm.trans h'.url)
  obtain rfl : path = "" := (String.append_right_inj cdnHost).mp (hempty.symm.trans String.append_empty.symm)
  exact absurd h'.plain.rooted (by decide)

theorem isPreconnect_preconnectLink : isPreconnect preconnectLink = true := by decide +kernel

/-- A script that is classic with an attribute set is so without it. -/
theorem IsClassic.of_set {name value : String} (h : IsClassic (el.set name value)) (htype : name ≠ "type") :
    IsClassic el where
  tag := h.tag
  type := by
    have := h.type
    rwa [Element.attribute?_set_of_ne htype.symm] at this
  nomodule := by
    have := h.nomodule
    rw [Element.hasAttribute_set, Bool.or_eq_false_iff] at this
    exact this.1

/-- An element that gets no twin. -/
def IsSingle (s : Settings.Urls) (el : Element) : Prop :=
  s.modules = true → IsClassic el → ∀ stem, ¬ Addressed el "src" (stem ++ ".js")

/-- What may be made of a tree without adding a twin. -/
inductive Readdresses (s : Settings.Urls) : Tree → Tree → Prop where
  | kept {tree : Tree} (h : ∀ el children, tree = .element el children → ∀ name path, ¬ Addressed el name path) :
      Readdresses s tree tree
  | moved {el : Element} {name path : String} (children : List Tree) (h : Addressed el name path) :
      Readdresses s (.element el children) (.element (el.set name (base s ++ path)) children)

/-- The marks of the first run are on each script with a twin, and on the twin. -/
theorem Becomes.isSingle (h : Becomes s el el' twin) : IsSingle s el' ∧ ∀ t ∈ twin, IsSingle s t := by
  cases h with
  | kept hkept => exact ⟨fun _ _ stem => hkept "src" _, fun t ht => nomatch ht⟩
  | @moved name path h hsingle =>
    refine ⟨fun hmodules hclassic stem haddressed => ?_, fun t ht => nomatch ht⟩
    obtain ⟨rfl, heq⟩ := haddressed.of_set h.named
    rw [← String.append_assoc] at heq
    obtain ⟨rest, hrest, -⟩ := (exists_stem_iff h.plain (by decide)).mp heq
    exact hsingle hmodules (hclassic.of_set (by decide)) rest hrest
  | twinned h hmodules hclassic =>
    constructor
    · intro _ hclassic'
      have hmark := hclassic'.nomodule
      rw [Element.hasAttribute_set_self] at hmark
      cases hmark
    · rintro t ht _ hclassic'
      obtain rfl := Option.some.inj ht
      refine absurd ?_ hclassic'.type
      rw [Element.attribute?_set_of_ne (by decide), Element.attribute?_set, if_pos rfl]

theorem isSingle_preconnectLink : IsSingle s preconnectLink :=
  fun _ _ _ => not_addressed_of_isPreconnect isPreconnect_preconnectLink _ _

/-- All elements among the trees are so. -/
def AllElements (trees : List Tree) (p : Element → Prop) : Prop :=
  ∀ el children, .element el children ∈ trees → p el

/-- What holds of all that an element may become, and of the link, holds of what the first run leaves. -/
theorem AllElements.of_rewrites {p q : Element → Prop} (hq : AllElements trees q)
    (hstep : ∀ el el' twin, q el → Becomes s el el' twin → p el' ∧ ∀ t ∈ twin, p t) (hlink : p preconnectLink)
    (h : List.Forall₂ (Rewrites s) trees rows) {links : List Tree} (hlinks : Preconnects s rows.flatten links) :
    AllElements (rows.flatten ++ links) p := by
  intro el children hmem
  rcases List.mem_append.mp hmem with hmem | hmem
  · obtain ⟨outs, houts, hmem⟩ := List.mem_flatten.mp hmem
    obtain ⟨tree, htree, hrewrites⟩ := exists_mem_of_forall₂ h houts
    cases hrewrites with
    | text content => cases List.mem_singleton.mp hmem
    | comment content => cases List.mem_singleton.mp hmem
    | element below hbecomes =>
      obtain ⟨hscript, htwin⟩ := hstep _ _ _ (hq _ _ htree) hbecomes
      rcases List.mem_cons.mp hmem with heq | hmem
      · exact (Tree.element.inj heq).1 ▸ hscript
      · obtain ⟨t, ht, heq⟩ := List.mem_map.mp hmem
        exact (Tree.element.inj heq).1 ▸ htwin t (Option.mem_toList.mp ht)
  · cases hlinks with
    | none => cases hmem
    | one =>
      obtain ⟨rfl, -⟩ := Tree.element.inj (List.mem_singleton.mp hmem)
      exact hlink

/-- A tree whose element gets no twin is only readdressed. -/
theorem readdresses_of_rewrites (h : Rewrites s tree outs)
    (hsingle : ∀ el children, tree = .element el children → IsSingle s el) :
    ∃ tree', outs = [tree'] ∧ Readdresses s tree tree' := by
  cases h with
  | text content => exact ⟨_, rfl, .kept fun _ _ heq => nomatch heq⟩
  | comment content => exact ⟨_, rfl, .kept fun _ _ heq => nomatch heq⟩
  | @element el el' twin children hbecomes =>
    cases hbecomes with
    | kept hkept =>
      refine ⟨_, rfl, .kept fun el _ heq => ?_⟩
      obtain ⟨rfl, -⟩ := Tree.element.inj heq
      exact hkept
    | moved h => exact ⟨_, rfl, .moved children h⟩
    | twinned h hmodules hclassic => exact absurd h (hsingle el children rfl hmodules hclassic _)

/-- Each of a row of trees whose elements get no twin is only readdressed. -/
theorem forall₂_readdresses (h : List.Forall₂ (Rewrites s) trees rows) (hsingle : AllElements trees (IsSingle s)) :
    List.Forall₂ (Readdresses s) trees rows.flatten := by
  induction h with
  | nil => exact .nil
  | @cons tree outs trees rows hfirst _ ih =>
    obtain ⟨tree', rfl, hreaddresses⟩ := readdresses_of_rewrites hfirst fun el children heq =>
      hsingle el children (heq ▸ List.mem_cons_self)
    exact .cons hreaddresses (ih fun el children hmem => hsingle el children (List.mem_cons_of_mem _ hmem))

/-- A link for an early connection has no address to relocate. -/
theorem mem_of_isPreconnect (h : List.Forall₂ (Readdresses s) trees trees') {children : List Tree}
    (hmem : .element el children ∈ trees) (hel : isPreconnect el = true) : .element el children ∈ trees' := by
  obtain ⟨tree', htree', hreaddresses⟩ := exists_mem_of_forall₂ h.flip hmem
  cases hreaddresses with
  | kept => exact htree'
  | moved _ h => exact absurd h (not_addressed_of_isPreconnect hel _ _)

/-- A second run: every tree of the head in its place, and none more. -/
inductive Reruns (s : Settings.Urls) : Document → Document → Prop where
  | mk {doctype : Option String} {root head : Element} {trees trees' : List Tree} {body : Tree}
      (hroot : root.tag = "html") (hhead : head.tag = "head") (h : List.Forall₂ (Readdresses s) trees trees') :
      Reruns s ⟨doctype, [.element root [.element head trees, body]]⟩
        ⟨doctype, [.element root [.element head trees', body]]⟩

/-- What a second run makes of the document of a first one: only addresses change. -/
theorem Rewritten.reruns {d d' d'' : Document} (h : Rewritten s d d') (h' : Rewritten s d' d'') : Reruns s d' d'' := by
  cases h with
  | @mk doctype root head trees links body rows hroot hhead hrows hlinks =>
    cases h' with
    | @mk _ _ _ _ links' _ rows' _ _ hrows' hlinks' =>
      have hsingle : AllElements (rows.flatten ++ links) (IsSingle s) :=
        AllElements.of_rewrites (q := fun _ => True) (fun _ _ _ => trivial) (fun _ _ _ _ hbecomes => hbecomes.isSingle)
          isSingle_preconnectLink hrows hlinks
      have hreaddresses := forall₂_readdresses hrows' hsingle
      -- the link that a second run might add is there already
      obtain rfl : links' = [] := by
        cases hlinks' with
        | none => rfl
        | one hnetwork hmissing =>
          exfalso
          obtain ⟨el, children, hmem, hel⟩ : ∃ el children, .element el children ∈ rows.flatten ++ links
              ∧ isPreconnect el = true := by
            cases hlinks with
            | none hpresent =>
              obtain ⟨el, children, hmem, hel⟩ := hpresent.resolve_left (by rw [hnetwork]; decide)
              exact ⟨el, children, List.mem_append_left _ hmem, hel⟩
            | one =>
              exact ⟨preconnectLink, [], List.mem_append_right _ (List.mem_singleton_self _),
                isPreconnect_preconnectLink⟩
          rw [hmissing el children (mem_of_isPreconnect hreaddresses hmem hel)] at hel
          cases hel
      rw [List.append_nil]
      exact .mk hroot hhead hreaddresses

/-! ## Addresses of the first run -/

/-- Relocated, an address with this path is the same as before, or it is not relocated again. -/
def Settles (s : Settings.Urls) (path : String) : Prop :=
  base s = cdnHost ∨ ∀ path', IsPlain path' → base s ++ path ≠ cdnHost ++ path'

/-- A path does not settle exactly if it is written below another base that again begins with the host's address. -/
theorem not_settles_iff {path : String} : ¬ Settles s path
    ↔ base s ≠ cdnHost ∧ ∃ path', IsPlain path' ∧ base s ++ path = cdnHost ++ path' := by
  simp [Settles]

/-- What comes behind a dot does not matter to a beginning that has none. -/
theorem startsWith_append_dot {start stem ending : String} (hstart : '.' ∉ start.toList) :
    Text.startsWith start (stem ++ "." ++ ending) = Text.startsWith start stem := by
  rw [Bool.eq_iff_iff, startsWith_iff, startsWith_iff, String.append_assoc, String.toList_append, String.toList_append]
  constructor
  · rintro ⟨rest, hrest⟩
    rcases List.append_eq_append_iff.mp hrest with ⟨more, hmore, -⟩ | ⟨more, hmore, hending⟩
    · exact ⟨more, hmore.symm⟩
    · cases more with
      | nil => exact ⟨[], by rw [hmore, List.append_nil, List.append_nil]⟩
      | cons c more =>
        -- the beginning would go on with the dot
        obtain ⟨rfl, -⟩ : '.' = c ∧ _ := List.cons.inj hending
        exact absurd (hmore ▸ List.mem_append_right _ List.mem_cons_self) hstart
  · exact fun hprefix => hprefix.trans (List.prefix_append _ _)

/-- Whether a path is plain does not depend on its ending. -/
theorem isPlain_append_dot {stem ending : String} : IsPlain (stem ++ "." ++ ending) ↔ IsPlain stem := by
  constructor
  · intro h
    have h₁ := h.rooted
    have h₂ := h.not_channel
    have h₃ := h.not_release
    rw [startsWith_append_dot (by decide)] at h₁ h₂ h₃
    exact ⟨h₁, h₂, h₃⟩
  · intro h
    constructor <;> rw [startsWith_append_dot (by decide)]
    · exact h.rooted
    · exact h.not_channel
    · exact h.not_release

/-- A twin stands where its script stands. -/
theorem Settles.of_twin {stem : String} (h : Settles s (stem ++ ".js")) : Settles s (stem ++ ".mjs") := by
  refine h.imp_right fun h path' hpath' heq => ?_
  rw [← String.append_assoc] at heq
  obtain ⟨rest, rfl, hstem⟩ := (exists_stem_iff hpath' (by decide)).mp heq.symm
  have hplain : IsPlain (rest ++ ".js") := by
    rw [show ".mjs" = "." ++ "mjs" from rfl, ← String.append_assoc, isPlain_append_dot] at hpath'
    rwa [show ".js" = "." ++ "js" from rfl, ← String.append_assoc, isPlain_append_dot]
  refine h _ hplain ?_
  rw [← String.append_assoc, hstem, String.append_assoc]

/-- If all addresses settle, a second run relocates one only to what it is. -/
theorem Becomes.base_eq (h : Becomes s el el' twin) (hsettles : ∀ name path, Addressed el name path → Settles s path) :
    (∀ name path, Addressed el' name path → base s = cdnHost)
      ∧ ∀ t ∈ twin, ∀ name path, Addressed t name path → base s = cdnHost := by
  have hstays {name value path path' : String} (hsettles : Settles s path) (hname : addressName? el.tag = some name)
      (h : Addressed (el.set name (base s ++ path)) value path') : base s = cdnHost :=
    hsettles.resolve_right fun hall => hall path' h.plain (h.of_set hname).2
  cases h with
  | kept hkept => exact ⟨fun name path h => absurd h (hkept name path), fun t ht => nomatch ht⟩
  | moved h => exact ⟨fun name path h' => hstays (hsettles _ _ h) h.named h', fun t ht => nomatch ht⟩
  | twinned h =>
    have hsource := hsettles _ _ h
    refine ⟨fun name path h' => hstays hsource h.named (h'.of_set_other (by decide)), fun t ht name path h' => ?_⟩
    obtain rfl := Option.some.inj ht
    exact hstays hsource.of_twin h.named ((h'.of_set_other (by decide)).of_set_other (by decide))

/-- Readdressing changes nothing if the base is the host's own wherever there is an address. -/
theorem eq_of_readdresses (h : List.Forall₂ (Readdresses s) trees trees')
    (hbase : AllElements trees fun el => ∀ name path, Addressed el name path → base s = cdnHost) : trees' = trees := by
  induction h with
  | nil => rfl
  | cons hfirst _ ih =>
    rw [ih fun el children hmem => hbase el children (List.mem_cons_of_mem _ hmem)]
    cases hfirst with
    | kept => rfl
    | moved children h =>
      rw [hbase _ children List.mem_cons_self _ _ h, Element.set_of_attribute? h.url]

/-! ## The length of the markup -/

/-- Writing another value makes the markup longer or shorter by the difference of the two values as they are escaped. -/
theorem length_writeAll_put {L : List Attribute} {name old new : String}
    (h : (L.find? (·.name == name)).map (·.value) = some old) (hold : old ≠ "") (hnew : new ≠ "") :
    (Attribute.writeAll (Attribute.put name new L)).length + (escapeAttribute old).toList.length
      = (Attribute.writeAll L).length + (escapeAttribute new).toList.length := by
  induction L with
  | nil => cases h
  | cons a rest ih =>
    rw [List.find?_cons] at h
    by_cases ha : a.name = name
    · rw [beq_iff_eq.mpr ha] at h
      obtain rfl := Option.some.inj h
      rw [Attribute.put, if_pos ha, Attribute.writeAll, Attribute.writeAll, List.flatMap_cons, List.flatMap_cons,
        Attribute.toList_toHtml_of_value hold, Attribute.toList_toHtml_of_value (a := ⟨a.name, new⟩) hnew]
      simp only [List.length_append, List.length_cons, List.length_nil]
      omega
    · rw [beq_eq_false_iff_ne.mpr ha] at h
      have hrest := ih h
      rw [Attribute.put, if_neg ha, Attribute.writeAll, Attribute.writeAll, List.flatMap_cons, List.flatMap_cons,
        List.length_append, List.length_append]
      rw [Attribute.writeAll, Attribute.writeAll] at hrest
      omega

theorem toList_escapeAttribute_append (a b : String) :
    (escapeAttribute (a ++ b)).toList = (escapeAttribute a).toList ++ (escapeAttribute b).toList := by
  simp [escapeAttribute]

theorem IsPlain.append_ne_empty {path : String} (h : IsPlain path) (start : String) : start ++ path ≠ "" := by
  intro heq
  obtain ⟨-, rfl⟩ := String.append_eq_empty_iff.mp heq
  exact absurd h.rooted (by decide)

/-- A relocation adds as much as there is between the two hosts, once they are written. -/
theorem length_startTag_set {name path : String} (h : Addressed el name path) :
    (el.set name (base s ++ path)).startTag.toList.length + (escapeAttribute cdnHost).toList.length
      = el.startTag.toList.length + (escapeAttribute (base s)).toList.length := by
  have hput := length_writeAll_put h.url (h.plain.append_ne_empty _) (h.plain.append_ne_empty (base s))
  rw [toList_escapeAttribute_append, toList_escapeAttribute_append, List.length_append, List.length_append] at hput
  rw [Element.toList_startTag, Element.toList_startTag]
  simp only [List.length_cons, List.length_append, Element.set]
  omega

/-- Moving an address makes the markup longer or shorter by the difference of the two bases as they are escaped. -/
theorem length_write_moved {name path : String} (h : Addressed el name path) (children : List Tree) (raw : Bool) :
    ((Tree.element (el.set name (base s ++ path)) children).write raw).toList.length
        + (escapeAttribute cdnHost).toList.length
      = ((Tree.element el children).write raw).toList.length + (escapeAttribute (base s)).toList.length := by
  have hstart := length_startTag_set (s := s) h
  rw [Tree.write, Tree.write, Element.tag_set]
  split
  · exact hstart
  · simp only [String.toList_append, List.length_append, Element.endTag, Element.tag_set]
    omega

/-- Every address that is relocated adds the same to the length of the markup. -/
theorem exists_length_writeAll (h : List.Forall₂ (Readdresses s) trees trees') : ∃ n,
    (Tree.writeAll false trees').toList.length + n * (escapeAttribute cdnHost).toList.length
        = (Tree.writeAll false trees).toList.length + n * (escapeAttribute (base s)).toList.length
      ∧ (n = 0 → AllElements trees fun el => ∀ name path, ¬ Addressed el name path) := by
  induction h with
  | nil => exact ⟨0, by rw [Nat.zero_mul, Nat.zero_mul], fun _ _ _ hmem => nomatch hmem⟩
  | @cons tree tree' trees trees' hfirst _ ih =>
    obtain ⟨n, hlength, hnone⟩ := ih
    rw [Tree.writeAll, Tree.writeAll, String.toList_append, String.toList_append, List.length_append,
      List.length_append]
    cases hfirst with
    | kept h =>
      refine ⟨n, by omega, fun hn el children hmem => ?_⟩
      rcases List.mem_cons.mp hmem with heq | hmem
      · exact h el children heq.symm
      · exact hnone hn el children hmem
    | moved children h =>
      have hmoved := length_write_moved (s := s) h children false
      refine ⟨n + 1, ?_, fun hn => nomatch hn⟩
      rw [Nat.succ_mul, Nat.succ_mul]
      omega

/-- Two hosts are written with the same length only if they are the same, where one goes on as the other. -/
theorem length_escapeAttribute_ne {path path' : String} (hbase : base s ≠ cdnHost)
    (h : base s ++ path = cdnHost ++ path') :
    (escapeAttribute cdnHost).toList.length ≠ (escapeAttribute (base s)).toList.length := by
  have hlonger {a b : String} (hne : a ≠ b) {more : List Char} (h : b.toList = a.toList ++ more) :
      (escapeAttribute a).toList.length < (escapeAttribute b).toList.length := by
    obtain rfl : b = a ++ String.ofList more :=
      String.toList_injective (by rw [h, String.toList_append, String.toList_ofList])
    rw [toList_escapeAttribute_append, List.length_append]
    cases more with
    | nil => exact absurd (by simp) hne
    | cons c more =>
      have hc : Markup.escapeAttributeChar c ≠ [] := by
        unfold Markup.escapeAttributeChar
        split <;> simp
      have hpos := List.length_pos_iff.mpr hc
      have hwritten : (escapeAttribute (String.ofList (c :: more))).toList
          = Markup.escapeAttributeChar c ++ more.flatMap Markup.escapeAttributeChar := by
        simp [escapeAttribute]
      rw [hwritten, List.length_append]
      omega
  have h := congrArg String.toList h
  rw [String.toList_append, String.toList_append] at h
  rcases List.append_eq_append_iff.mp h with ⟨more, hmore, -⟩ | ⟨more, hmore, -⟩
  · exact (hlonger hbase hmore).ne'
  · exact (hlonger hbase.symm hmore).ne

/-- The markup of a document around that of its head. -/
theorem exists_toHtml_eq (doctype : Option String) {root head : Element} (body : Tree) (hroot : root.tag = "html")
    (hhead : head.tag = "head") : ∃ before after, ∀ trees,
      (Document.mk doctype [.element root [.element head trees, body]]).toHtml
        = before ++ Tree.writeAll false trees ++ after := by
  refine ⟨Markup.doctypeHtml doctype ++ root.startTag ++ head.startTag,
    head.endTag ++ (body.write false ++ root.endTag), fun trees => ?_⟩
  have hvoid : Markup.isVoid "html" = false ∧ Markup.isVoid "head" = false := by decide
  have hraw : Markup.isRawText "html" = false ∧ Markup.isRawText "head" = false := by decide
  simp [Document.toHtml, Tree.writeAll, Tree.write, hroot, hhead, hvoid, hraw, String.append_assoc]

/-! ## Settings that settle everything -/

/-- A channel or a release is in the way of a plain path. -/
theorem settles_of_base {channel path : String} (hbase : base s = cdnHost ++ channel)
    (hchannel : ¬ IsPlain (channel ++ path)) : Settles s path := by
  refine .inr fun path' hpath' heq => hchannel ?_
  rw [hbase, String.append_assoc, String.append_right_inj] at heq
  rwa [heq]

/-- Without another host, the base is the network's own or a release below it, which no plain path names, so that every
address settles. -/
theorem settles_of_network {path : String} (hhost : s.host = none) (hpath : IsPlain path) : Settles s path := by
  have htrimmed : Text.dropTrailing '/' (s.host.getD cdnHost) = cdnHost := by
    rw [hhost]
    decide
  cases hrelease : s.release with
  | some release =>
    have hbase : base s = cdnHost ++ ("/rtv/" ++ release) := by
      simp only [base, htrimmed, hrelease, String.append_assoc]
    refine settles_of_base hbase fun hplain => ?_
    have hstart := hplain.not_release
    rw [String.append_assoc, Extensions.startsWith_append] at hstart
    cases hstart
  | none =>
    cases hchannel : s.longTerm with
    | false => exact .inl (by simp [base, htrimmed, hrelease, hchannel])
    | true =>
      have hbase : base s = cdnHost ++ "/lts" := by simp [base, htrimmed, hrelease, hchannel]
      refine settles_of_base hbase fun hplain => ?_
      have hstart := hplain.not_channel
      rw [show "/lts/" = "/lts" ++ "/" from rfl, startsWith_append_iff.mpr hpath.rooted] at hstart
      cases hstart

/-- A host or prefix that cannot be mistaken for the beginning of the network's address settles all paths. -/
theorem settles_of_takesOver {path : String} (hs : TakesOver s) (hscheme : base s ≠ "https:") (hpath : IsPlain path) :
    Settles s path := by
  refine .inr fun path' hpath' heq => hs.not_onNetwork hscheme (relocate?_eq_some_iff.mpr ⟨path, hpath, rfl, rfl⟩) ?_
  rw [heq, OnNetwork, startsWith_append_iff]
  exact hpath'.rooted

/-! ## Two runs -/

/-- An address that does not settle is one for the second run. -/
theorem Becomes.exists_addressed {name path : String} (h : Becomes s el el' twin) (hel : Addressed el name path)
    (hsettles : ¬ Settles s path) : ∃ path', Addressed el' name path' := by
  obtain ⟨-, path', hplain, hpath'⟩ := not_settles_iff.mp hsettles
  have hset : Addressed (el.set name (base s ++ path)) name path' :=
    ⟨hel.named, by rw [Element.attribute?_set, if_pos rfl, hpath'], hplain⟩
  cases h with
  | kept hkept => exact absurd hel (hkept name path)
  | moved h =>
    obtain ⟨rfl, rfl⟩ := hel.unique h
    exact ⟨path', hset⟩
  | twinned h =>
    obtain ⟨rfl, rfl⟩ := hel.unique h
    exact ⟨path', hset.named, (Element.attribute?_set_of_ne (by decide)).trans hset.url, hplain⟩

/-- The markup of a second run is that of the first exactly if each address settles: a moved address changes the
markup's length. -/
theorem toHtml_eq_iff_of_rewritten {doctype : Option String} {root head : Element} {body : Tree} {d' d'' : Document}
    (h : Rewritten s ⟨doctype, [.element root [.element head trees, body]]⟩ d') (h' : Rewritten s d' d'') :
    d''.toHtml = d'.toHtml ↔ AllElements trees fun el => ∀ name path, Addressed el name path → Settles s path := by
  have hreruns := h.reruns h'
  cases h with
  | @mk _ _ _ _ links _ rows hroot hhead hrows hlinks =>
    cases hreruns with
    | @mk _ _ _ _ trees'' _ _ _ hreaddresses =>
      obtain ⟨before, after, htoHtml⟩ := exists_toHtml_eq doctype body hroot hhead
      rw [htoHtml, htoHtml]
      constructor
      · intro heq el children hmem name path haddressed
        by_contra hsettles
        obtain ⟨hbase, path', -, hpath'⟩ := not_settles_iff.mp hsettles
        -- nothing is added to the markup, although an address is relocated and each adds something
        obtain ⟨n, hlength, hnone⟩ := exists_length_writeAll hreaddresses
        have hn : n ≠ 0 := by
          rintro rfl
          obtain ⟨outs, houts, hrewrites⟩ := exists_mem_of_forall₂ hrows.flip hmem
          cases hrewrites with
          | element _ hbecomes =>
            obtain ⟨path', haddressed'⟩ := hbecomes.exists_addressed haddressed hsettles
            exact hnone rfl _ children
              (List.mem_append_left _ (List.mem_flatten.mpr ⟨_, houts, List.mem_cons_self⟩)) _ _ haddressed'
        have htrees : Tree.writeAll false trees'' = Tree.writeAll false (rows.flatten ++ links) :=
          (String.append_right_inj before).mp ((String.append_left_inj after).mp heq)
        rw [htrees] at hlength
        exact length_escapeAttribute_ne hbase hpath'
          (Nat.eq_of_mul_eq_mul_left (Nat.pos_of_ne_zero hn) (Nat.add_left_cancel hlength))
      · intro hsettles
        have hbase : AllElements (rows.flatten ++ links) fun el =>
            ∀ name path, Addressed el name path → base s = cdnHost :=
          hsettles.of_rewrites (fun _ _ _ hel hbecomes => hbecomes.base_eq hel)
            (fun _ _ h => absurd h (not_addressed_of_isPreconnect isPreconnect_preconnectLink _ _)) hrows hlinks
        rw [eq_of_readdresses hreaddresses hbase]

/-- A property of all elements among the trees is one of the nodes on the page. -/
theorem allElements_map_treeOf_iff {id : NodeId} {p : Element → Prop} (h : page.Linked) :
    AllElements ((page.children id).map page.treeOf) p
      ↔ ∀ x ∈ page.children id, ∀ el, page.element? x = some el → p el := by
  constructor
  · intro hall x hx el hel
    exact hall el _ (List.mem_map.mpr ⟨x, hx, h.treeOf_element (Page.element?_eq_some_iff.mp hel)⟩)
  · intro hall el children hmem
    obtain ⟨x, hx, hel⟩ := (exists_mem_treeOf_iff h (p := (· == el))).mp ⟨el, children, hmem, beq_self_eq_true el⟩
    obtain ⟨e, he, heq⟩ := Page.isElement_iff.mp hel
    exact hall x hx el (beq_iff_eq.mp heq ▸ he)

section Pages

variable (h : page.WellFormed) (hhost : ∀ host, s.host = some host → isValidHost host = true)

include h hhost

/-- The exact condition on the page for a second run to write what the first one wrote. -/
theorem toHtml_rerun_iff : (run s (run s page).page).page.toHtml = (run s page).page.toHtml
    ↔ ∀ x ∈ page.children page.head, ∀ el, page.element? x = some el →
      ∀ name path, Addressed el name path → Settles s path := by
  have honce := rewritten_run h hhost
  obtain ⟨root, hroot, -⟩ := Option.map_eq_some_iff.mp h.tag?_root
  obtain ⟨head, hhead, -⟩ := Option.map_eq_some_iff.mp h.tag?_head
  rw [toDocument_eq h hroot hhead] at honce
  rw [← allElements_map_treeOf_iff h.linked]
  exact toHtml_eq_iff_of_rewritten honce (rewritten_run (run_wellFormed h s) hhost)

omit hhost in
/-- On the network, whatever the channel, and on a host of its own the pass has to run once only. -/
theorem toHtml_rerun (hs : s.host = none ∨ TakesOver s ∧ base s ≠ "https:") :
    (run s (run s page).page).page.toHtml = (run s page).page.toHtml := by
  have hhost : ∀ host, s.host = some host → isValidHost host = true := by
    rintro host hhost
    rcases hs with hnone | ⟨hs, -⟩
    · rw [hnone] at hhost
      cases hhost
    · obtain ⟨host', hhost', hvalid, -⟩ := hs.host
      exact Option.some.inj (hhost'.symm.trans hhost) ▸ hvalid
  refine (toHtml_rerun_iff h hhost).mpr fun x _ el _ name path haddressed => ?_
  rcases hs with hnone | ⟨hs, hscheme⟩
  · exact settles_of_network hnone haddressed.plain
  · exact settles_of_takesOver hs hscheme haddressed.plain

/-- A second run adds no twin and no link. It changes nothing at all just if every address settles, which all do on the
network itself, whatever the channel, and on a host that takes over from it. -/
theorem toHtml_run_run_iff : Reruns s (run s page).page.toDocument (run s (run s page).page).page.toDocument
    ∧ ((run s (run s page).page).page.toHtml = (run s page).page.toHtml
      ↔ ∀ x ∈ page.children page.head, ∀ el, page.element? x = some el →
        ∀ name path, Addressed el name path → Settles s path)
    ∧ (s.host = none ∨ TakesOver s ∧ base s ≠ "https:" →
      (run s (run s page).page).page.toHtml = (run s page).page.toHtml) :=
  ⟨(rewritten_run h hhost).reruns (rewritten_run (run_wellFormed h s) hhost), toHtml_rerun_iff h hhost, toHtml_rerun h⟩

end Pages

/-- A head in which everything settles. -/
theorem toHtml_run_run_iff_mixedHead :
    let page := Page.ofDocument mixedHead
    let s : Settings.Urls := { longTerm := true, modules := true, host := some "https://cdn.ampproject.org/" }
    page.WellFormed ∧ (∀ host, s.host = some host → isValidHost host = true)
      ∧ Reruns s (run s page).page.toDocument (run s (run s page).page).page.toDocument
      ∧ ((run s (run s page).page).page.toHtml = (run s page).page.toHtml
        ↔ ∀ x ∈ page.children page.head, ∀ el, page.element? x = some el →
          ∀ name path, Addressed el name path → Settles s path)
      ∧ (s.host = none ∨ TakesOver s ∧ base s ≠ "https:" →
        (run s (run s page).page).page.toHtml = (run s page).page.toHtml) := by
  have h := Page.ofDocument_wellFormed mixedHead
  have hhost : ∀ host, some "https://cdn.ampproject.org/" = some host → isValidHost host = true := by
    rintro host heq
    obtain rfl := Option.some.inj heq
    decide
  exact ⟨h, hhost, toHtml_run_run_iff h hhost⟩

/-- A mirror on the network itself: what has been pointed at it is pointed at it again. -/
theorem toHtml_run_run_ne_inlineScript :
    let page := Page.ofDocument inlineScript
    let s : Settings.Urls := { host := some "https://cdn.ampproject.org/mirror" }
    page.WellFormed ∧ isContradictory s = false ∧ s.host.all isValidHost = true
      ∧ (run s (run s page).page).page.toHtml ≠ (run s page).page.toHtml :=
  ⟨Page.ofDocument_wellFormed inlineScript, by decide +kernel⟩

end Urls
end AmpTuner
