import AmpTuner.Proofs.Markup.Grammar
import AmpTuner.Markup.Reader
import AmpTuner.Page.Basic

/-!
# The tree that tokens build

A tree can be written down as the list of its nodes in document order, each with the place of its parent in the
list. `Tree.listing` takes that list from a tree. `Listing.ofTokens` takes it from tokens without building any tree: it
holds no more than the list so far and the elements that are still open.

## The architecture

* A builder lists what it would return if the input ended now (`nodes_finish`). **`listingAll_forest`**: a node that is
  added comes last in that list, and its parent is the innermost open element.
* **`listing_closeInnermost`**: closing an element changes nothing in the list; **`listing_closeTag`** says what an end
  tag leaves open.
* **`Builder.listing_step`** puts these together for a token, and **`Builder.listing_foldl_step`** for all tokens.
-/

namespace AmpTuner.Markup

variable {el : Element} {content tag : String} {tree : Tree} {place : Nat} {parent : Option Nat}

/-! ## Listings -/

/-- A node in a listing: what it holds, and the place of its parent. -/
structure Entry where
  kind : NodeKind
  parent : Option Nat
deriving Repr, DecidableEq

mutual

/-- The nodes of a tree in document order, the first of them at `place`. -/
def Tree.listing (parent : Option Nat) (place : Nat) : Tree → List Entry
  | .text content => [⟨.text content, parent⟩]
  | .comment content => [⟨.comment content, parent⟩]
  | .element el children => ⟨.element el, parent⟩ :: Tree.listingAll (some place) (place + 1) children

/-- The entries of a forest, one tree behind the other. -/
def Tree.listingAll (parent : Option Nat) (place : Nat) : List Tree → List Entry
  | [] => []
  | tree :: rest =>
    tree.listing parent place
      ++ Tree.listingAll parent (place + (tree.listing parent place).length) rest

end

/-- The entries of a document, in document order. -/
def Document.listing (d : Document) : List Entry := Tree.listingAll none 0 d.nodes

/-- An element that is open, by its place in the listing. -/
structure OpenTag where
  place : Nat
  tag : String
deriving Repr, DecidableEq

/-- What an end tag leaves open: it closes the innermost element of its name with all that was opened inside it,
and nothing when no such element is open. -/
def OpenTag.close (tag : String) (opened : List OpenTag) : List OpenTag :=
  match opened.dropWhile (·.tag != tag) with
  | [] => opened
  | _ :: outer => outer

/-- The nodes whose start has been read, in order, and the elements that are open, innermost first. -/
structure Listing where
  entries : List Entry := []
  opened : List OpenTag := []
deriving Repr, DecidableEq

namespace Listing

/-- Puts a node behind the others. Its parent is the innermost element that is open. -/
def add (l : Listing) (kind : NodeKind) : Listing :=
  { l with entries := l.entries ++ [⟨kind, l.opened.head?.map (·.place)⟩] }

/-- Puts an element behind the others and opens it. -/
def enter (l : Listing) (el : Element) : Listing :=
  { entries := (l.add (.element el)).entries, opened := ⟨l.entries.length, el.tag⟩ :: l.opened }

/-- Reads on by a token. An element that is complete is open for its own content only. -/
def step (l : Listing) : Token → Listing
  | .doctype _ => l
  | .comment content => l.add (.comment content)
  | .text content => l.add (.text content)
  | .complete el content =>
    if content.isEmpty then l.add (.element el)
    else { (l.enter el).add (.text content) with opened := l.opened }
  | .opening el => l.enter el
  | .closing tag => { l with opened := OpenTag.close tag l.opened }

/-- The listing of tokens, by a machine that knows only which tags are open. -/
def ofTokens (tokens : List Token) : Listing := tokens.foldl step {}

end Listing

/-- The places of later trees go on behind the earlier ones. -/
theorem Tree.listingAll_append (trees more : List Tree) :
    Tree.listingAll parent place (trees ++ more)
      = Tree.listingAll parent place trees
        ++ Tree.listingAll parent (place + (Tree.listingAll parent place trees).length) more := by
  induction trees generalizing place with
  | nil => rfl
  | cons tree trees ih =>
    rw [List.cons_append, Tree.listingAll, Tree.listingAll, ih, List.append_assoc, List.length_append,
      Nat.add_assoc]

/-- The element that an end tag closes is the first of its name. -/
theorem OpenTag.close_eq (tag : String) (opened : List OpenTag) :
    OpenTag.close tag opened = match opened.findIdx? (·.tag == tag) with
      | none => opened
      | some inside => opened.drop (inside + 1) := by
  have hdrop : opened.dropWhile (·.tag != tag) = match opened.findIdx? (·.tag == tag) with
      | none => []
      | some inside => opened.drop inside := by
    induction opened with
    | nil => rfl
    | cons o outer ih =>
      rw [List.dropWhile_cons, List.findIdx?_cons]
      by_cases ho : o.tag = tag
      · simp [ho]
      · rw [if_pos (by simpa using ho), if_neg (by simpa using ho), ih]
        cases outer.findIdx? (·.tag == tag) <;> rfl
  rw [close, hdrop]
  cases hfound : opened.findIdx? (·.tag == tag) with
  | none => rfl
  | some inside =>
    have hinside := (List.findIdx?_eq_some_iff_getElem.mp hfound).1
    dsimp only
    rw [List.drop_eq_getElem_cons hinside]

/-! ## What a builder lists -/

namespace Builder

variable {b : Builder} {top : List Tree}

/-- The forest that comes of nodes at the top, open elements and further nodes in the innermost of these. -/
def forest (top : List Tree) : List OpenElement → List Tree → List Tree
  | [], more => top.reverse ++ more
  | o :: outer, more => forest top outer [.element o.element (o.earlier.reverse ++ more)]

/-- A node that is added stands last in the forest so far. -/
theorem forest_add (b : Builder) (tree : Tree) :
    forest (b.add tree).top (b.add tree).pending [] = forest b.top b.pending [tree] := by
  obtain ⟨doctype, top, pending⟩ := b
  cases pending with
  | nil => simp [add, forest]
  | cons o outer => simp [add, forest]

theorem length_pending_add (b : Builder) (tree : Tree) : (b.add tree).pending.length = b.pending.length := by
  obtain ⟨doctype, top, pending⟩ := b
  cases pending <;> rfl

/-- The end of the input closes everything that is open. -/
theorem nodes_finish (b : Builder) : b.finish.nodes = forest b.top b.pending [] := by
  have hclose (n : Nat) (b : Builder) (hn : b.pending.length = n) :
      (b.close n).top.reverse = forest b.top b.pending [] := by
    induction n generalizing b with
    | zero =>
      obtain ⟨doctype, top, pending⟩ := b
      obtain rfl := List.length_eq_zero_iff.mp hn
      exact (List.append_nil _).symm
    | succ n ih =>
      obtain ⟨doctype, top, pending⟩ := b
      cases pending with
      | nil => cases hn
      | cons o outer =>
        have hinner : (Builder.mk doctype top outer).pending.length = n := Nat.succ.inj hn
        rw [close, closeInnermost, ih _ ((length_pending_add ⟨doctype, top, outer⟩ _).trans hinner), forest_add,
          forest, List.append_nil]
  exact hclose _ b rfl

/-- The elements of `pending` with the places that they get in the end. -/
def openTagsOf (top : List Tree) : List OpenElement → List OpenTag
  | [] => []
  | o :: outer =>
    ⟨(Tree.listingAll none 0 (forest top outer [])).length, o.element.tag⟩ :: openTagsOf top outer

/-- What would be listed if the input ended now, and what is open. -/
def listing (b : Builder) : Listing :=
  ⟨Tree.listingAll none 0 (forest b.top b.pending []), openTagsOf b.top b.pending⟩

/-- A further node comes last, as a child of the innermost open element. -/
theorem listingAll_forest (pending : List OpenElement) (tree : Tree) :
    Tree.listingAll none 0 (forest top pending [tree]) = Tree.listingAll none 0 (forest top pending [])
      ++ tree.listing ((openTagsOf top pending).head?.map (·.place))
        (Tree.listingAll none 0 (forest top pending [])).length := by
  -- along the open elements, each of which is the last child of the one around it
  induction pending generalizing tree with
  | nil =>
    rw [forest, forest, List.append_nil, Tree.listingAll_append, Tree.listingAll, Tree.listingAll, List.append_nil,
      Nat.zero_add]
    rfl
  | cons o outer ih =>
    rw [forest, forest, ih, ih, Tree.listing, Tree.listing, List.append_nil, Tree.listingAll_append,
      Tree.listingAll, Tree.listingAll, List.append_nil]
    simp [openTagsOf, Nat.add_assoc, Nat.add_comm 1]

theorem openTagsOf_add (b : Builder) (tree : Tree) :
    openTagsOf (b.add tree).top (b.add tree).pending = openTagsOf b.top b.pending := by
  obtain ⟨doctype, top, pending⟩ := b
  cases pending <;> rfl

/-- Nothing in the listing changes when an element is closed. -/
theorem listing_closeInnermost (b : Builder) :
    b.closeInnermost.listing = ⟨b.listing.entries, b.listing.opened.tail⟩ := by
  obtain ⟨doctype, top, pending⟩ := b
  cases pending with
  | nil => rfl
  | cons o outer =>
    rw [closeInnermost, listing, forest_add, openTagsOf_add, listing, forest, List.append_nil]
    rfl

/-- Closing elements makes no entry. -/
theorem listing_close (b : Builder) (n : Nat) :
    (b.close n).listing = ⟨b.listing.entries, b.listing.opened.drop n⟩ := by
  induction n generalizing b with
  | zero => rfl
  | succ n ih => rw [close, ih, listing_closeInnermost, List.drop_tail]

/-- The open tags are those of the open elements. -/
theorem map_tag_openTagsOf (pending : List OpenElement) :
    (openTagsOf top pending).map (·.tag) = pending.map (·.element.tag) := by
  induction pending with
  | nil => rfl
  | cons o outer ih => rw [openTagsOf, List.map_cons, List.map_cons, ih]

/-- An end tag acts on the builder as on the listing. -/
theorem listing_closeTag (b : Builder) (tag : String) :
    (b.closeTag tag).listing = ⟨b.listing.entries, OpenTag.close tag b.listing.opened⟩ := by
  have hfound : b.listing.opened.findIdx? (·.tag == tag) = b.pending.findIdx? (·.element.tag == tag) := by
    have htags : b.listing.opened.map (·.tag) = b.pending.map (·.element.tag) := map_tag_openTagsOf b.pending
    have hmap := congrArg (List.findIdx? (· == tag)) htags
    rwa [List.findIdx?_map, List.findIdx?_map] at hmap
  rw [OpenTag.close_eq, hfound, closeTag]
  cases b.pending.findIdx? (·.element.tag == tag) with
  | none => rfl
  | some inside => exact listing_close b (inside + 1)

/-! ## Tokens -/

/-- Adding a tree lists it behind the others, below the innermost open element. -/
theorem listing_add (b : Builder) (tree : Tree) : (b.add tree).listing
    = ⟨b.listing.entries
        ++ tree.listing (b.listing.opened.head?.map (·.place)) b.listing.entries.length, b.listing.opened⟩ := by
  rw [listing, forest_add, openTagsOf_add, listingAll_forest]
  rfl

/-- While an element is open and empty, it is listed as if it were complete. -/
theorem listing_enter (b : Builder) (el : Element) :
    { b with pending := ⟨el, []⟩ :: b.pending }.listing = b.listing.enter el := by
  rw [listing, forest, listingAll_forest]
  rfl

/-- Every token acts on the builder as on the listing. -/
theorem listing_step (b : Builder) (token : Token) : (b.step token).listing = b.listing.step token := by
  cases token with
  | doctype name => rfl
  | comment content => exact listing_add b (.comment content)
  | text content => exact listing_add b (.text content)
  | complete el content =>
    rw [step, Listing.step, listing_add]
    split
    · rfl
    · simp [Tree.listing, Tree.listingAll, Listing.enter, Listing.add]
  | opening el => exact listing_enter b el
  | closing tag => exact listing_closeTag b tag

/-- Builder and listing agree over any number of tokens. -/
theorem listing_foldl_step (b : Builder) (tokens : List Token) :
    (tokens.foldl step b).listing = tokens.foldl Listing.step b.listing := by
  induction tokens generalizing b with
  | nil => rfl
  | cons token tokens ih => rw [List.foldl_cons, List.foldl_cons, ih, listing_step]

end Builder

theorem listing_ofTokens (tokens : List Token) :
    (Document.ofTokens tokens).listing = (Listing.ofTokens tokens).entries := by
  rw [Document.listing, Document.ofTokens, Builder.nodes_finish]
  exact congrArg Listing.entries (Builder.listing_foldl_step {} tokens)

/-- The nodes that a token begins. -/
def Token.kinds : Token → List NodeKind
  | .comment content => [.comment content]
  | .text content => [.text content]
  | .complete el content => .element el :: if content.isEmpty then [] else [.text content]
  | .opening el => [.element el]
  | .doctype _ | .closing _ => []

/-- The machine makes the entries of each token, in the order of the tokens. -/
theorem map_kind_entries_ofTokens (tokens : List Token) :
    (Listing.ofTokens tokens).entries.map (·.kind) = tokens.flatMap Token.kinds := by
  have hstep (l : Listing) (token : Token) :
      (l.step token).entries.map (·.kind) = l.entries.map (·.kind) ++ token.kinds := by
    cases token with
    | complete el content =>
      rw [Listing.step, Token.kinds]
      split <;> simp [Listing.add, Listing.enter]
    | _ => simp [Listing.step, Token.kinds, Listing.add, Listing.enter]
  have hfold (l : Listing) : (tokens.foldl Listing.step l).entries.map (·.kind)
      = l.entries.map (·.kind) ++ tokens.flatMap Token.kinds := by
    induction tokens generalizing l with
    | nil => simp
    | cons token tokens ih => rw [List.foldl_cons, ih, hstep, List.flatMap_cons, List.append_assoc]
  exact hfold {}

/-- The tree of a source that is accepted has the nodes whose start was read, in that order, each inside the element
that was the innermost open one at that point. What was read is told by the grammar of tokens. -/
theorem listing_read {source : String} {d : Document} (h : read source = .ok d) :
    ∃ parts, Token.StandsIn source.toList parts
      ∧ d.listing.map (·.kind) = (parts.map (·.2)).flatMap Token.kinds
      ∧ d.listing = (Listing.ofTokens (parts.map (·.2))).entries := by
  rw [read] at h
  split at h
  · cases h
  · next tokens hall =>
    obtain rfl := Except.ok.inj h
    obtain ⟨parts, hparts, rfl⟩ := Token.exists_standsIn_of_all hall
    refine ⟨parts, hparts, ?_, listing_ofTokens _⟩
    rw [listing_ofTokens, map_kind_entries_ofTokens]

/-- A stray end tag, elements that are closed together by the end tag of an outer one, a void element, one that closes
itself, literal content and an element that is never closed. -/
def misnestedSource : String :=
  "</b><div><p>x<br><i/><b>y</div>z</p><script>if(a<b)</script><ul><li>last"

/-- End tags that close too much, close nothing, or are missing. -/
theorem listing_read_misnestedSource : ∃ d, read misnestedSource = .ok d
    ∧ ∃ parts, Token.StandsIn misnestedSource.toList parts
      ∧ d.listing.map (·.kind) = (parts.map (·.2)).flatMap Token.kinds
      ∧ d.listing = (Listing.ofTokens (parts.map (·.2))).entries := by
  have haccepted : (read misnestedSource).toOption.any (fun _ => true) = true := by decide +kernel
  cases hread : read misnestedSource with
  | error halt => rw [hread] at haccepted; cases haccepted
  | ok d => exact ⟨d, rfl, listing_read hread⟩

end AmpTuner.Markup
