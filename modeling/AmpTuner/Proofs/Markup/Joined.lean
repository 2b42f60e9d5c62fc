import AmpTuner.Proofs.Markup.Readable
import AmpTuner.Markup.Writer
import Mathlib.Data.List.Chain

/-!
# Texts side by side

A text has no end mark in markup, so two texts side by side come back as one. `Document.joined` is the
document in which that has happened already.

* **`toHtml_joined`**: the written form cannot tell the difference.
* **`Document.Readable.joined`** and **`parted_joined`**: joining keeps a document readable and leaves no two
  texts side by side, which is what reading it back needs.
-/

namespace AmpTuner.Markup

namespace Tree

/-- Puts a node in front of others. Two texts become one. -/
def pushFront : Tree → List Tree → List Tree
  | .text a, .text b :: rest => .text (a ++ b) :: rest
  | tree, rest => tree :: rest

mutual

/-- The tree with adjacent texts merged. -/
def joined : Tree → Tree
  | .element el children => .element el (joinedAll children)
  | .text content => .text content
  | .comment content => .comment content

/-- The trees, each joined, and adjacent texts made one. -/
def joinedAll : List Tree → List Tree
  | [] => []
  | tree :: rest => tree.joined.pushFront (joinedAll rest)

end

def isText : Tree → Bool
  | text _ => true
  | _ => false

/-- At most one of two neighbours is a text. -/
def Apart (a b : Tree) : Prop := ¬(a.isText = true ∧ b.isText = true)

/-- No element has two texts side by side. -/
inductive Parted : Tree → Prop where
  | text (content : String) : Parted (.text content)
  | comment (content : String) : Parted (.comment content)
  | element (el : Element) {children : List Tree} (hchildren : ∀ child ∈ children, Parted child)
      (hapart : children.IsChain Apart) : Parted (.element el children)

/-- A tree in front either joins the text behind it, or stands apart from what is behind. -/
theorem pushFront_cases (tree : Tree) (rest : List Tree) :
    (∃ a b after, tree = .text a ∧ rest = .text b :: after
        ∧ tree.pushFront rest = .text (a ++ b) :: after)
      ∨ (tree.pushFront rest = tree :: rest ∧ ∀ next ∈ rest.head?, Apart tree next) := by
  cases tree with
  | text a =>
    cases rest with
    | nil => exact .inr ⟨rfl, by simp⟩
    | cons next rest =>
      cases next with
      | text b => exact .inl ⟨a, b, rest, rfl, rfl, rfl⟩
      | element el children => exact .inr ⟨rfl, by rintro _ ⟨⟩ ⟨_, h⟩; cases h⟩
      | comment content => exact .inr ⟨rfl, by rintro _ ⟨⟩ ⟨_, h⟩; cases h⟩
  | element el children => exact .inr ⟨rfl, by rintro _ _ ⟨h, _⟩; cases h⟩
  | comment content => exact .inr ⟨rfl, by rintro _ _ ⟨h, _⟩; cases h⟩

end Tree

/-- The document with adjacent texts made one. -/
def Document.joined (d : Document) : Document := ⟨d.doctype, Tree.joinedAll d.nodes⟩

/-- No two texts of the document are adjacent. -/
structure Document.Parted (d : Document) : Prop where
  nodes : ∀ tree ∈ d.nodes, tree.Parted
  apart : d.nodes.IsChain Tree.Apart

/-! ## The written form -/

theorem escapeText_append (a b : String) : escapeText (a ++ b) = escapeText a ++ escapeText b := by
  apply String.toList_injective
  simp [escapeText, String.toList_append]

namespace Tree

/-- Pushing a tree in front shows in the text as writing it first. -/
theorem writeAll_pushFront (raw : Bool) (tree : Tree) (rest : List Tree) :
    writeAll raw (tree.pushFront rest) = tree.write raw ++ writeAll raw rest := by
  -- escaping goes character by character, so two texts may be escaped apart or together
  rcases pushFront_cases tree rest with ⟨a, b, after, rfl, rfl, h⟩ | ⟨h, _⟩
  · rw [h, writeAll, writeAll, write, write, write]
    cases raw
    · simp [escapeText_append, String.append_assoc]
    · simp [String.append_assoc]
  · rw [h, writeAll]

mutual

/-- Joining does not show in the text of a tree. -/
theorem write_joined (raw : Bool) (tree : Tree) : tree.joined.write raw = tree.write raw :=
  match tree with
  | .element el children => by rw [joined, write, write, writeAll_joinedAll]
  | .text content => rfl
  | .comment content => rfl

/-- Joining does not show in the text of a forest. -/
theorem writeAll_joinedAll (raw : Bool) (trees : List Tree) :
    writeAll raw (joinedAll trees) = writeAll raw trees :=
  match trees with
  | [] => rfl
  | tree :: rest => by
    rw [joinedAll, writeAll_pushFront, write_joined, writeAll_joinedAll, writeAll]

end

end Tree

theorem toHtml_joined (d : Document) : d.joined.toHtml = d.toHtml := by
  rw [Document.toHtml, Document.toHtml, Document.joined, Tree.writeAll_joinedAll]

/-! ## What joining keeps -/

namespace Tree

/-- Joining two texts leaves them readable. -/
theorem readable_pushFront {tree : Tree} {rest : List Tree} (htree : tree.Readable)
    (hrest : ∀ t ∈ rest, t.Readable) : ∀ t ∈ tree.pushFront rest, t.Readable := by
  rcases pushFront_cases tree rest with ⟨a, b, after, rfl, rfl, h⟩ | ⟨h, _⟩
  · obtain ⟨_, hafter⟩ := List.forall_mem_cons.mp hrest
    rw [h]
    -- a merged text is not empty, as its first part is not
    refine List.forall_mem_cons.mpr ⟨.text ?_, hafter⟩
    cases htree with
    | text hne => simp [hne]
  · rw [h]
    exact List.forall_mem_cons.mpr ⟨htree, hrest⟩

mutual

/-- A readable tree stays readable when it is joined. -/
theorem Readable.joined {tree : Tree} (h : tree.Readable) : tree.joined.Readable :=
  match tree with
  | .text _ => h
  | .comment _ => h
  | .element _ children => by
    rw [Tree.joined]
    cases h with
    | empty hel => exact .empty hel
    | literal hel hraw hne hend => exact .literal hel hraw hne hend
    | element hel hvoid hraw hchildren =>
      exact .element hel hvoid hraw (readable_joinedAll children hchildren)

/-- A forest of readable trees stays readable when it is joined. -/
theorem readable_joinedAll (trees : List Tree) (h : ∀ t ∈ trees, t.Readable) :
    ∀ t ∈ joinedAll trees, t.Readable :=
  match trees with
  | [] => h
  | _ :: rest => by
    obtain ⟨htree, hrest⟩ := List.forall_mem_cons.mp h
    exact readable_pushFront htree.joined (readable_joinedAll rest hrest)

end

/-- The merged text stands where the second one stood, so that what follows it is still apart. -/
theorem isChain_pushFront (tree : Tree) {rest : List Tree} (h : rest.IsChain Apart) :
    (tree.pushFront rest).IsChain Apart := by
  rcases pushFront_cases tree rest with ⟨a, b, after, rfl, rfl, heq⟩ | ⟨heq, hnext⟩
  · rw [heq]
    rw [List.isChain_cons] at h ⊢
    exact h
  · rw [heq, List.isChain_cons]
    exact ⟨hnext, h⟩

/-- Pushing a tree in front parts what it joins. -/
theorem parted_pushFront {tree : Tree} {rest : List Tree} (htree : tree.Parted)
    (hrest : ∀ t ∈ rest, t.Parted) : ∀ t ∈ tree.pushFront rest, t.Parted := by
  rcases pushFront_cases tree rest with ⟨a, b, after, rfl, rfl, h⟩ | ⟨h, _⟩
  · rw [h]
    exact List.forall_mem_cons.mpr ⟨.text _, (List.forall_mem_cons.mp hrest).2⟩
  · rw [h]
    exact List.forall_mem_cons.mpr ⟨htree, hrest⟩

mutual

/-- In a joined tree texts are parted. -/
theorem parted_joined (tree : Tree) : tree.joined.Parted :=
  match tree with
  | .text content => .text content
  | .comment content => .comment content
  | .element el children =>
    .element el (parted_joinedAll children).1 (parted_joinedAll children).2

/-- In a joined forest they are parted within the trees and between them. -/
theorem parted_joinedAll (trees : List Tree) :
    (∀ t ∈ joinedAll trees, t.Parted) ∧ (joinedAll trees).IsChain Apart :=
  match trees with
  | [] => ⟨by simp [joinedAll], .nil⟩
  | tree :: rest =>
    have hrest := parted_joinedAll rest
    ⟨parted_pushFront tree.parted_joined hrest.1, isChain_pushFront _ hrest.2⟩

end

end Tree

theorem Document.Readable.joined {d : Document} (h : d.Readable) : d.joined.Readable :=
  ⟨h.doctype, Tree.readable_joinedAll d.nodes h.nodes⟩

theorem Document.parted_joined (d : Document) : d.joined.Parted :=
  ⟨(Tree.parted_joinedAll d.nodes).1, (Tree.parted_joinedAll d.nodes).2⟩

end AmpTuner.Markup
