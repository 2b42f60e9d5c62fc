import AmpTuner.Proofs.Extensions.Binding
import AmpTuner.Proofs.Pass.WellFormed

/-!
# What is loaded from the network

* **`Urls.OnNetwork`** and **`Urls.IsPinned`** read an address; **`Urls.isPinned_of_relocate?`** and
  **`Urls.TakesOver.not_onNetwork`** say what becomes of it: it stays on the network only if it is pinned.
* **`Page.Loads`** is what the results are about: a child of the head loads a script or a style sheet from an address.
* **`Urls.Twinned`** says of a page that a script has got its twin. **`Urls.twinned_addTwin`** shows it.
* **`Urls.loads_relocateChild`** is one step of the pass, and **`Urls.loads_run`** the pass.
-/

namespace AmpTuner

open Markup (Element)
open Vocabulary

variable {page page' : Page} {id x : NodeId} {el : Element} {url : String}

namespace Urls

/-! ## Addresses -/

/-- The address is on the network. -/
def OnNetwork (url : String) : Prop := Text.startsWith (cdnHost ++ "/") url = true

/-- The address names a channel or a release on the network. -/
def IsPinned (url : String) : Prop :=
  Text.startsWith (cdnHost ++ "/lts/") url = true ∨ Text.startsWith (cdnHost ++ "/rtv/") url = true

instance (url : String) : Decidable (OnNetwork url) := inferInstanceAs (Decidable (_ = _))

instance (url : String) : Decidable (IsPinned url) := inferInstanceAs (Decidable (_ ∨ _))

/-- The settings are those of a site that holds its own copy of all that is loaded. -/
structure TakesOver (s : Settings.Urls) : Prop where
  host : ∃ host, s.host = some host ∧ isValidHost host = true ∧ Text.startsWith cdnHost host = false
  oneRelease : isContradictory s = false

theorem startsWith_iff {start s : String} : Text.startsWith start s = true ↔ start.toList <+: s.toList :=
  List.isPrefixOf_iff_prefix

theorem startsWith_append_iff {start rest s : String} :
    Text.startsWith (start ++ rest) (start ++ s) = true ↔ Text.startsWith rest s = true := by
  rw [startsWith_iff, startsWith_iff, String.toList_append, String.toList_append, List.prefix_append_right_inj]

/-- A pinned address is on the network. -/
theorem IsPinned.onNetwork (h : IsPinned url) : OnNetwork url := by
  have hshorter {channel : String} (hchannel : (cdnHost ++ "/").toList <+: (cdnHost ++ channel).toList)
      (hurl : Text.startsWith (cdnHost ++ channel) url = true) : OnNetwork url :=
    startsWith_iff.mpr (hchannel.trans (startsWith_iff.mp hurl))
  rcases h with hlts | hrtv
  · exact hshorter (by decide) hlts
  · exact hshorter (by decide) hrtv

/-- What the pass passes over on the network is pinned. -/
theorem isPinned_of_relocate? {base : String} (hurl : OnNetwork url) (hnone : relocate? url base = none) :
    IsPinned url := by
  rw [relocate?] at hnone
  cases hpath : Text.afterStart? cdnHost url with
  | none =>
    have hhost : cdnHost.toList <+: (cdnHost ++ "/").toList := by decide
    rw [Extensions.afterStart?_eq_none_iff, Bool.eq_false_iff] at hpath
    exact absurd (startsWith_iff.mpr (hhost.trans (startsWith_iff.mp hurl))) hpath
  | some path =>
    obtain rfl := Extensions.eq_append_of_afterStart? hpath
    rw [hpath] at hnone
    rw [OnNetwork, startsWith_append_iff] at hurl
    rw [IsPinned, startsWith_append_iff, startsWith_append_iff]
    by_contra hplain
    obtain ⟨hlts, hrtv⟩ := not_or.mp hplain
    simp [hurl, hlts, hrtv] at hnone

/-- A new address is below the base. -/
theorem exists_path_of_relocate? {base new : String} (h : relocate? url base = some new) :
    ∃ path, new = base ++ "/" ++ path := by
  rw [relocate?] at h
  split at h
  · cases h
  · next path _ =>
    split at h
    · cases h
    · next hpath =>
      simp only [Bool.or_eq_true, Bool.not_eq_true', not_or, Bool.not_eq_false] at hpath
      obtain ⟨rest, hrest⟩ := startsWith_iff.mp hpath.1.1
      refine ⟨String.ofList rest, String.toList_injective ?_⟩
      rw [← Option.some.inj h]
      simp [← hrest]

/-- No trailing character is left. -/
theorem getLast?_dropTrailing (c : Char) (s : String) : (Text.dropTrailing c s).toList.getLast? ≠ some c := by
  rw [Text.dropTrailing, String.toList_ofList, List.getLast?_reverse]
  intro hlast
  have hdropped := List.head?_dropWhile_not (· == c) s.toList.reverse
  rw [hlast] at hdropped
  simp at hdropped

theorem isPrefix_dropTrailing (c : Char) (s : String) : (Text.dropTrailing c s).toList <+: s.toList := by
  rw [Text.dropTrailing, String.toList_ofList, ← List.reverse_suffix, List.reverse_reverse]
  exact List.dropWhile_suffix _

/-- A text goes on with a slash like the network's host where the host is the text, or where the scheme ends. -/
theorem eq_of_prefix_network {start : List Char} (h : start ++ ['/'] <+: (cdnHost ++ "/").toList) :
    start = "https:".toList ∨ start = "https:/".toList ∨ start = cdnHost.toList := by
  have hall : ∀ n < (cdnHost ++ "/").toList.length,
      (cdnHost ++ "/").toList.take n ++ ['/'] <+: (cdnHost ++ "/").toList →
      (cdnHost ++ "/").toList.take n = "https:".toList ∨ (cdnHost ++ "/").toList.take n = "https:/".toList
        ∨ (cdnHost ++ "/").toList.take n = cdnHost.toList := by decide
  have hlength := h.length_le
  rw [List.length_append, List.length_singleton] at hlength
  have hstart : start = (cdnHost ++ "/").toList.take start.length :=
    List.prefix_iff_eq_take.mp ((List.prefix_append _ _).trans h)
  rw [hstart] at h ⊢
  exact hall _ (by omega) h

/-- The base is the host and a channel, or none. -/
theorem base_eq (s : Settings.Urls) : ∃ channel,
    (channel = [] ∨ "/lts".toList <+: channel ∨ "/rtv/".toList <+: channel)
      ∧ (base s).toList = (Text.dropTrailing '/' (s.host.getD cdnHost)).toList ++ channel := by
  rw [base]
  cases s.release with
  | some release =>
    exact ⟨"/rtv/".toList ++ release.toList, .inr (.inr (List.prefix_append _ _)), by
      simp only [String.toList_append, List.append_assoc]⟩
  | none =>
    cases s.longTerm with
    | true => exact ⟨"/lts".toList, .inr (.inl (List.prefix_refl _)), by simp⟩
    | false => exact ⟨[], .inl rfl, by simp⟩

/-- What is relocated is not on the network afterwards, unless the host is a bare scheme. -/
theorem TakesOver.not_onNetwork {s : Settings.Urls} (hs : TakesOver s) (hscheme : base s ≠ "https:") {new : String}
    (hnew : relocate? url (base s) = some new) : ¬ OnNetwork new := by
  intro hnetwork
  obtain ⟨host, hhost, -, hcdn⟩ := hs.host
  obtain ⟨path, rfl⟩ := exists_path_of_relocate? hnew
  obtain ⟨channel, hchannel, hbase⟩ := base_eq s
  rw [hhost, Option.getD_some] at hbase
  have hforeign : ¬ cdnHost.toList <+: (Text.dropTrailing '/' host).toList := fun hstart => by
    rw [startsWith_iff.mpr (hstart.trans (isPrefix_dropTrailing '/' host))] at hcdn
    cases hcdn
  have hlast := getLast?_dropTrailing '/' host
  have hnew : (base s ++ "/" ++ path).toList
      = (Text.dropTrailing '/' host).toList ++ (channel ++ ("/".toList ++ path.toList)) := by
    rw [String.toList_append, String.toList_append, hbase]
    simp only [List.append_assoc]
  rw [OnNetwork, startsWith_iff, hnew] at hnetwork
  generalize (Text.dropTrailing '/' host).toList = start at hbase hforeign hlast hnetwork
  -- a slash follows the host, with a channel or without
  obtain ⟨rest, hrest⟩ : ∃ rest, channel ++ ("/".toList ++ path.toList) = ['/'] ++ rest := by
    rcases hchannel with rfl | ⟨more, rfl⟩ | ⟨more, rfl⟩ <;> exact ⟨_, rfl⟩
  have hlong : ¬ (cdnHost ++ "/").toList <+: start := fun hstart =>
    hforeign (List.IsPrefix.trans (by decide) hstart)
  have hshort : start ++ ['/'] <+: (cdnHost ++ "/").toList := by
    rw [hrest, ← List.append_assoc] at hnetwork
    refine List.prefix_of_prefix_length_le (List.prefix_append _ _) hnetwork ?_
    rw [List.length_append, List.length_singleton]
    by_contra hle
    exact hlong (List.prefix_of_prefix_length_le hnetwork
      ((List.prefix_append start ['/']).trans (List.prefix_append _ _)) (by omega))
  rcases eq_of_prefix_network hshort with rfl | rfl | rfl
  · -- behind the scheme one slash is not enough
    rcases hchannel with rfl | ⟨more, rfl⟩ | ⟨more, rfl⟩
    · exact hscheme (String.toList_injective (by rw [hbase, List.append_nil]))
    all_goals
      exact absurd hnetwork (by simp [cdnHost])
  · exact hlast rfl
  · exact hforeign (List.prefix_refl _)

/-- A twin is where its script is. -/
theorem not_onNetwork_twin {src stem : String} (hstem : Text.beforeEnd? ".js" src = some stem)
    (hsrc : ¬ OnNetwork src) : ¬ OnNetwork (stem ++ ".mjs") := by
  rw [OnNetwork, startsWith_iff] at hsrc ⊢
  have hstart : stem.toList <+: src.toList := by
    rw [Text.beforeEnd?] at hstem
    split at hstem
    · rw [← Option.some.inj hstem, String.toList_ofList]
      exact List.take_prefix _ _
    · cases hstem
  rw [String.toList_append (s := stem)]
  rintro ⟨rest, hrest⟩
  have hstem : ¬ (cdnHost ++ "/").toList <+: stem.toList := fun hstem => hsrc (hstem.trans hstart)
  rcases List.append_eq_append_iff.mp hrest with ⟨more, hmore, -⟩ | ⟨more, hmore, hending⟩
  · exact hstem ⟨more, hmore.symm⟩
  · -- the slash behind the host would have to be in the new ending
    have hne : more ≠ [] := by
      rintro rfl
      exact hstem (hmore ▸ (List.append_nil stem.toList).symm ▸ List.prefix_refl _)
    have hslash : more.getLast? = some '/' := by
      rw [← List.getLast?_append_of_ne_nil stem.toList hne, ← hmore]
      decide
    have hmem : '/' ∈ ".mjs".toList := hending ▸ List.mem_append_left rest (List.mem_of_getLast? hslash)
    exact absurd hmem (by decide)

end Urls

/-! ## Loads -/

/-- The address from which a script or a link to a style sheet loads. -/
def loads? (el : Element) : Option String :=
  if el.tag = "script" then el.attribute? "src"
  else if el.tag = "link" ∧ "stylesheet" ∈ el.tokens "rel" then el.attribute? "href"
  else none

/-- What an element loads stands where the pass looks for it. -/
theorem addressName?_of_loads? (h : loads? el = some url) :
    ∃ name, Urls.addressName? el.tag = some name ∧ el.attribute? name = some url := by
  rw [loads?] at h
  split at h
  · next htag => exact ⟨"src", by rw [htag]; rfl, h⟩
  · split at h
    · next hlink => exact ⟨"href", by rw [hlink.1]; rfl, h⟩
    · cases h

/-- The address that is loaded stands in the attribute for it. -/
theorem attribute?_of_loads? {name : String} (h : loads? el = some url) (hname : Urls.addressName? el.tag = some name) :
    el.attribute? name = some url := by
  obtain ⟨name', hname', hattribute⟩ := addressName?_of_loads? h
  rw [hname] at hname'
  rwa [Option.some.inj hname']

theorem loads?_of_tag (htag : el.tag ∉ ["script", "link"]) : loads? el = none := by
  simp only [List.mem_cons, List.not_mem_nil, or_false, not_or] at htag
  rw [loads?, if_neg htag.1, if_neg fun hlink => htag.2 hlink.1]

/-- The attributes that are read for it tell what an element loads. -/
theorem loads?_congr {el' : Element} (htag : el'.tag = el.tag)
    (hattributes : ∀ name ∈ ["src", "href", "rel"], el'.attribute? name = el.attribute? name) :
    loads? el' = loads? el := by
  rw [loads?, htag, Element.tokens, hattributes "src" (by decide), hattributes "href" (by decide),
    hattributes "rel" (by decide), loads?, Element.tokens]

theorem loads?_set {name : String} (hname : name ∉ ["src", "href", "rel"]) (value : String) :
    loads? (el.set name value) = loads? el :=
  loads?_congr rfl fun _ hother => Element.attribute?_set_of_ne fun heq => hname (heq ▸ hother)

namespace Page

/-- A child of the head loads a script or a style sheet from the address. -/
structure Loads (page : Page) (x : NodeId) (url : String) : Prop where
  parent? : page.parent? x = some page.head
  element? : ∃ el, page.element? x = some el ∧ loads? el = some url

theorem Loads.loads? (h : page.Loads x url) (hel : page.element? x = some el) : loads? el = some url := by
  obtain ⟨el', hel', hurl⟩ := h.element?
  rwa [Option.some.inj (hel.symm.trans hel')]

/-- An attribute of another node does not change what is loaded. -/
theorem Loads.of_setAttribute {name value : String} (h : (page.setAttribute id name value).Loads x url)
    (hx : x ≠ id) : page.Loads x url where
  parent? := by
    have hlinks : page.SameLinks (page.setAttribute id name value) := mapElement_sameLinks _
    have hframe : page.SameFrame (page.setAttribute id name value) := mapElement_sameFrame _
    rw [← hlinks.parent?, h.parent?, hframe.head]
  element? := by
    obtain ⟨el, hel, hurl⟩ := h.element?
    rw [setAttribute, element?_mapElement, if_neg hx] at hel
    exact ⟨el, hel, hurl⟩

end Page

namespace Urls

/-! ## Twins -/

/-- A script has got a twin behind it, and nothing else. -/
structure Twinned (page page' : Page) (script : NodeId) (el : Element) (stem : String) : Prop where
  maintains : page.Maintains page'
  source : (el.attribute? "src").bind (Text.beforeEnd? ".js") = some stem
  element? : ∀ x, page'.element? x = if x = page.next then some (twinOf stem el)
    else if x = script then some (el.set "nomodule" "") else page.element? x
  parent? : ∀ x, page'.parent? x = if x = page.next then some page.head else page.parent? x

/-- The twin is new, its script is marked, and no other element changes. -/
theorem element?_withTwin (h : page.WellFormed) (hel : page.element? id = some el) (stem : String) (x : NodeId) :
    (withTwin page id stem).element? x = if x = page.next then some (twinOf stem el)
      else if x = id then some (el.set "nomodule" "") else page.element? x := by
  have hne : id ≠ page.next := Page.ne_next_of_has (Page.has_of_element? hel)
  have hcopy (x : NodeId) (hx : x ≠ page.next) : (page.copy id).1.element? x = page.element? x := by
    rw [Page.copy, Page.element?_congr ((Page.kind?_create _).trans (if_neg hx))]
  rw [withTwin, Page.setAttribute, Page.element?_mapElement, Page.element?_mapElement]
  by_cases hnext : x = page.next
  · rw [hnext, if_neg hne.symm, if_pos rfl, if_pos rfl, (maintains_copy h hel).2]
    rfl
  · rw [if_neg hnext, if_neg hnext, hcopy x hnext]
    split
    · next hscript => rw [hscript, hel, Option.map_some]
    · rfl

theorem withTwin_sameLinks (page : Page) (id : NodeId) (stem : String) : page.SameLinks (withTwin page id stem) :=
  ((Page.create_sameLinks _).trans (Page.mapElement_sameLinks _)).trans (Page.mapElement_sameLinks _)

/-- A twin stands behind its script, or there is none. -/
theorem twinned_addTwin (h : page.WellFormed) (hel : page.element? id = some el) :
    addTwin page id = page ∨ ∃ stem, Twinned page (addTwin page id) id el stem := by
  have hmaintains := maintains_addTwin h hel
  rw [addTwin_eq] at hmaintains ⊢
  cases hstem : (page.attribute? id "src").bind (Text.beforeEnd? ".js") with
  | none => exact .inl rfl
  | some stem =>
    rw [hstem] at hmaintains
    rw [Page.attribute?, hel, Option.bind_some] at hstem
    have hhas : (withTwin page id stem).Has page.next :=
      Page.has_of_element? ((element?_withTwin h hel stem _).trans (if_pos rfl))
    refine .inr ⟨stem, hmaintains, hstem, fun x => ?_, fun x => ?_⟩
    · rw [Option.elim_some, Page.insertChildAfter, Page.element?_congr Page.kind?_attach, element?_withTwin h hel]
    · rw [Option.elim_some, Page.insertChildAfter, Page.parent?_attach hhas, (withTwin_sameLinks page id stem).parent?]

/-! ## Steps -/

section Steps

variable {s : Settings.Urls} (hs : TakesOver s) (hscheme : base s ≠ "https:") (h : page.WellFormed)

include hs hscheme h

omit hs hscheme h in
/-- What is loaded after a twin has come was loaded before, but for the twin, which is where its script is. -/
theorem Twinned.loads {stem : String} (htwinned : Twinned page page' id el stem) (hel : page.element? id = some el)
    (htag : el.tag = "script") (hsource : ∀ source, el.attribute? "src" = some source → ¬ OnNetwork source)
    (hloads : page'.Loads x url) (hnetwork : OnNetwork url) : page.Loads x url := by
  obtain ⟨hparent, el', hel', hurl⟩ := hloads
  rw [htwinned.element?] at hel'
  rw [htwinned.parent?, htwinned.maintains.head] at hparent
  split at hel'
  · -- the twin
    obtain rfl := Option.some.inj hel'
    obtain ⟨source, hsrc, hstem⟩ := Option.bind_eq_some_iff.mp htwinned.source
    have htwin : loads? (twinOf stem el) = some (stem ++ ".mjs") := by
      rw [loads?, if_pos (show (twinOf stem el).tag = "script" from htag), twinOf,
        Element.attribute?_erase_of_ne (by decide), Element.attribute?_set_of_ne (by decide),
        Element.attribute?_set_of_ne (by decide), Element.attribute?_set, if_pos rfl]
    rw [htwin] at hurl
    obtain rfl := Option.some.inj hurl
    exact absurd hnetwork (not_onNetwork_twin hstem (hsource source hsrc))
  · next hnext =>
    rw [if_neg hnext] at hparent
    split at hel'
    · next hscript =>
      obtain rfl := Option.some.inj hel'
      rw [loads?_set (by decide)] at hurl
      exact ⟨hparent, el, hscript ▸ hel, hurl⟩
    · exact ⟨hparent, el', hel', hurl⟩

omit h in
/-- What is relocated is not loaded from the network any more. -/
theorem loads_setAttribute {name old new : String} (hel : page.element? id = some el)
    (hname : addressName? el.tag = some name) (hnew : relocate? old (base s) = some new)
    (hloads : (page.setAttribute id name new).Loads x url) (hnetwork : OnNetwork url) : page.Loads x url ∧ x ≠ id := by
  have hx : x ≠ id := by
    rintro rfl
    have hurl : loads? (el.set name new) = some url := by
      refine hloads.loads? ?_
      rw [Page.setAttribute, Page.element?_mapElement, if_pos rfl, hel, Option.map_some]
    have hattribute := attribute?_of_loads? hurl hname
    rw [Element.attribute?_set, if_pos rfl] at hattribute
    exact hs.not_onNetwork hscheme hnew (Option.some.inj hattribute ▸ hnetwork)
  exact ⟨hloads.of_setAttribute hx, hx⟩

/-- What the pass relocates is not loaded from the network any more, and what it passes over is pinned. -/
theorem loads_relocateChild (hloads : (relocateChild s page id).Loads x url) (hnetwork : OnNetwork url) :
    page.Loads x url ∧ (x = id → IsPinned url) := by
  rcases relocateChild_eq_or s page id with ⟨heq, hnone⟩ | ⟨el, name, new, hel, hname, hrelocate, hcases⟩
  · rw [heq] at hloads
    refine ⟨hloads, ?_⟩
    rintro rfl
    obtain ⟨el, hel, hurl⟩ := hloads.element?
    obtain ⟨name, hname, hattribute⟩ := addressName?_of_loads? hurl
    have hrelocate := hnone el name hel hname
    rw [hattribute, Option.bind_some] at hrelocate
    exact isPinned_of_relocate? hnetwork hrelocate
  · obtain ⟨old, -, hnew⟩ := Option.bind_eq_some_iff.mp hrelocate
    have hset (hloads : (page.setAttribute id name new).Loads x url) : page.Loads x url ∧ (x = id → IsPinned url) :=
      (loads_setAttribute hs hscheme hel hname hnew hloads hnetwork).imp_right fun hne heq => absurd heq hne
    rcases hcases with heq | ⟨htag, heq⟩ <;> rw [heq] at hloads
    · exact hset hloads
    · have hel' := element?_setAttribute_self hel name new
      refine hset ?_
      rcases twinned_addTwin h.setAttribute hel' with heq | ⟨stem, htwinned⟩
      · rwa [heq] at hloads
      · refine htwinned.loads hel' htag (fun source hsource => ?_) hloads hnetwork
        rw [htag] at hname
        rw [← Option.some.inj hname, Element.attribute?_set, if_pos rfl] at hsource
        exact Option.some.inj hsource ▸ hs.not_onNetwork hscheme hnew

/-- After all turns, only pinned addresses of the network are loaded by the children that had a turn. By induction on
them. -/
theorem loads_foldl_relocateChild (todo : List NodeId) (hloads : (todo.foldl (relocateChild s) page).Loads x url)
    (hnetwork : OnNetwork url) : page.Loads x url ∧ (x ∈ todo → IsPinned url) := by
  induction todo generalizing page with
  | nil => exact ⟨hloads, fun hmem => nomatch hmem⟩
  | cons id todo ih =>
    obtain ⟨hstep, htodo⟩ := ih (maintains_relocateChild h s id).wellFormed hloads
    obtain ⟨hpage, hpinned⟩ := loads_relocateChild hs hscheme h hstep hnetwork
    exact ⟨hpage, fun hmem => (List.mem_cons.mp hmem).elim hpinned htodo⟩

omit hscheme h in
/-- The pass goes through the children of the head. -/
theorem page_run : (run s page).page = (page.elementChildren page.head).foldl (relocateChild s) page := by
  obtain ⟨host, hhost, hvalid, hcdn⟩ := hs.host
  have hselfHosted : isSelfHosted s = true := by
    rw [isSelfHosted, hhost, Option.any_some, bne_iff_ne]
    intro heq
    rw [startsWith_iff.mpr (heq ▸ isPrefix_dropTrailing '/' host)] at hcdn
    cases hcdn
  have haccepted : s.host.filter (!isValidHost ·) = none := by
    rw [hhost, Option.filter_some, hvalid]
    rfl
  rw [run, haccepted]
  exact if_pos hselfHosted

/-- After the pass only what is pinned is loaded from the network, and was before. -/
theorem loads_run (hloads : (run s page).page.Loads x url) (hnetwork : OnNetwork url) :
    page.Loads x url ∧ IsPinned url := by
  rw [page_run hs] at hloads
  obtain ⟨hpage, hpinned⟩ := loads_foldl_relocateChild hs hscheme h _ hloads hnetwork
  obtain ⟨el, hel, -⟩ := hpage.element?
  refine ⟨hpage, hpinned (List.mem_filter.mpr ⟨(h.linked.mem_children_iff _ _).mpr hpage.parent?, ?_⟩)⟩
  rw [hel]
  rfl

end Steps

end Urls
end AmpTuner
