import AmpTuner.Proofs.Json.Reading
import AmpTuner.Markup.TreeJson

/-!
# Documents are read back from JSON

`Document.ofJson_toJson`: of a written document the reader makes that very document again, whatever stands in it, unless
arrays and objects are nested more than 127 deep; then it says so.

* The nodes of the first level are read at once (`Tree.reads`), all below them are held as values first
  (`Tree.ofValues_toValues`). In both cases a node is its type and its **`Tree.fields`**, of which
  `Tree.ofEntries_fields` makes the node again.
* Lists that are empty are left out, and so is a missing document type. Where this makes a difference the slot of the
  draft is all that is said (`draftOfEntries_attributes`, `draftOfEntries_children`).
-/

namespace AmpTuner.Markup

open Json (Value Cause Decoder ReadsEntries)

/-! ## Types and fields -/

/-- The word by which a type is written. -/
def NodeType.name : NodeType → String
  | element => "element"
  | text => "text"
  | comment => "comment"

theorem NodeType.ofName?_name (type : NodeType) : ofName? type.name = some type := by
  cases type <;> rfl

/-- The type of a node. -/
def Tree.type : Tree → NodeType
  | element .. => .element
  | text _ => .text
  | comment _ => .comment

/-- The entries behind the type. -/
def Tree.fields : Tree → List (String × Value)
  | element el children =>
    ("tag", .string el.tag) :: (Value.listField "attributes" (el.attributes.map Attribute.toValue)
      ++ Value.listField "children" (Tree.toValues children))
  | text content => [("text", .string content)]
  | comment content => [("text", .string content)]

theorem Tree.toValue_eq (tree : Tree) : tree.toValue = .object (("type", .string tree.type.name) :: tree.fields) := by
  cases tree <;> rw [toValue] <;> rfl

theorem Tree.toValues_eq_map (trees : List Tree) : toValues trees = trees.map toValue := by
  induction trees with
  | nil => rw [toValues, List.map_nil]
  | cons tree trees ih => rw [toValues, ih, List.map_cons]

/-- A field for a list has one entry at most. -/
theorem mem_listField {name : String} {items : List Value} {e : String × Value} (h : e ∈ Value.listField name items) :
    e = (name, .array items) := by
  rw [Value.listField] at h
  split at h
  · cases h
  · exact List.mem_singleton.mp h

/-- No other field is named like the type. -/
theorem Tree.ne_type_of_mem_fields {tree : Tree} {e : String × Value} (h : e ∈ tree.fields) : e.1 ≠ "type" := by
  cases tree with
  | element el children =>
    rw [fields, List.mem_cons, List.mem_append] at h
    rcases h with rfl | h | h
    · exact (by decide : "tag" ≠ "type")
    · rw [mem_listField h]
      exact (by decide : "attributes" ≠ "type")
    · rw [mem_listField h]
      exact (by decide : "children" ≠ "type")
  | text | comment =>
    rw [List.mem_singleton.mp h]
    exact (by decide : "text" ≠ "type")

/-! ## No numbers -/

theorem numberless_texts (name name' text text' : String) :
    (Value.object [(name, .string text), (name', .string text')]).Numberless := by
  refine .object (List.forall_mem_cons.mpr ⟨.string text, List.forall_mem_cons.mpr ⟨.string text', ?_⟩⟩)
  exact fun _ he => absurd he List.not_mem_nil

mutual

/-- No node is written with numbers. -/
theorem Tree.numberless_toValue : ∀ tree : Tree, tree.toValue.Numberless
  | .element el children => by
    rw [toValue_eq]
    refine .object fun e he => ?_
    rw [fields, List.mem_cons, List.mem_cons, List.mem_append] at he
    rcases he with rfl | rfl | he | he
    · exact .string _
    · exact .string _
    · rw [mem_listField he]
      exact .array (List.forall_mem_map.mpr fun _ _ => numberless_texts ..)
    · rw [mem_listField he]
      exact .array (numberless_toValues children)
  | .text content => by
    rw [toValue]
    exact numberless_texts ..
  | .comment content => by
    rw [toValue]
    exact numberless_texts ..

/-- No node of a list is written with numbers. -/
theorem Tree.numberless_toValues : ∀ trees : List Tree, ∀ v ∈ toValues trees, v.Numberless
  | [] => by
    rw [toValues]
    exact fun _ hv => absurd hv List.not_mem_nil
  | tree :: trees => by
    rw [toValues]
    exact List.forall_mem_cons.mpr ⟨tree.numberless_toValue, numberless_toValues trees⟩

end

/-! ## Nodes held as values -/

/-- Attributes are read back from their values. -/
theorem Attribute.listOfValue_toValue (as : List Attribute) : listOfValue (.array (as.map toValue)) = .ok as := by
  rw [listOfValue, listOf]
  show (as.map toValue).mapM ofValue = .ok as
  induction as with
  | nil => rfl
  | cons a as ih =>
    have ha : ofValue a.toValue = .ok a := rfl
    rw [List.map_cons, List.mapM_cons, ha, ih]
    rfl

theorem NodeType.ofValue_name (type : NodeType) : ofValue (.string type.name) = .ok type := by
  cases type <;> rfl

/-- Entries of other names do not change the type that was found. -/
theorem NodeType.ofEntries_of_ne {type : NodeType} {entries : List (String × Value)}
    (h : ∀ e ∈ entries, e.1 ≠ "type") : ofEntries (some type) entries = .ok type := by
  induction entries with
  | nil => rfl
  | cons e entries ih =>
    obtain ⟨he, hentries⟩ := List.forall_mem_cons.mp h
    rw [ofEntries, if_neg he, ih hentries]

/-- The type is no matter of the fields. -/
theorem Tree.ofEntries_cons_type (type : NodeType) (v : Value) (entries : List (String × Value)) :
    ofEntries type (("type", v) :: entries) = ofEntries type entries := by
  cases type <;> simp [ofEntries, draftOfEntries, textOfEntries]

section Draft

variable {d : ElementDraft}

/-- The attributes are found, or missing because there are none. -/
theorem draftOfEntries_attributes (hslot : d.attributes = none) (as : List Attribute) (rest : List (String × Value)) :
    ∃ slot, slot.getD [] = as ∧ Tree.draftOfEntries d (Value.listField "attributes" (as.map Attribute.toValue) ++ rest)
      = Tree.draftOfEntries { d with attributes := slot } rest := by
  cases as with
  | nil => exact ⟨none, rfl, by rw [← hslot]; rfl⟩
  | cons a as =>
    have hfill : fill "attributes" d.attributes
        (Attribute.listOfValue (.array ((a :: as).map Attribute.toValue))) = .ok (some (a :: as)) := by
      rw [hslot, Attribute.listOfValue_toValue]
      rfl
    refine ⟨some (a :: as), rfl, ?_⟩
    rw [Value.listField, if_neg (by simp), List.singleton_append, Tree.draftOfEntries, if_neg (by decide), if_pos rfl,
      hfill]
    rfl

/-- The children are found, or missing because there are none. -/
theorem draftOfEntries_children {children : List Tree} (hslot : d.children = none)
    (h : Tree.ofValues (Tree.toValues children) = .ok children) :
    ∃ slot, slot.getD [] = children ∧ Tree.draftOfEntries d (Value.listField "children" (Tree.toValues children))
      = .ok { d with children := slot } := by
  cases children with
  | nil =>
    refine ⟨none, rfl, ?_⟩
    rw [Tree.toValues, ← hslot]
    exact Tree.draftOfEntries.eq_1 d
  | cons tree children =>
    have hfill : fill "children" d.children
        (Tree.childrenOfValue (.array (Tree.toValues (tree :: children)))) = .ok (some (tree :: children)) := by
      rw [hslot, Tree.childrenOfValue, h]
      rfl
    refine ⟨some (tree :: children), rfl, ?_⟩
    rw [Value.listField, if_neg (by simp [Tree.toValues]), Tree.draftOfEntries, if_neg (by decide),
      if_neg (by decide), if_pos rfl, hfill]
    exact Tree.draftOfEntries.eq_1 _

end Draft

/-- An element is made of its fields again if its children are made of their values again. -/
theorem Tree.ofEntries_fields_element {children : List Tree} (el : Element)
    (h : ofValues (toValues children) = .ok children) :
    ofEntries .element (fields (.element el children)) = .ok (.element el children) := by
  have htag : fill "tag" none (stringOf (.string el.tag)) = .ok (some el.tag) := rfl
  obtain ⟨attributes, hattributes, hread⟩ := draftOfEntries_attributes (d := { tag := some el.tag }) rfl el.attributes
    (Value.listField "children" (toValues children))
  obtain ⟨slot, rfl, hreadChildren⟩ := draftOfEntries_children (d := { tag := some el.tag, attributes }) rfl h
  rw [ofEntries, fields, draftOfEntries, if_pos rfl, htag]
  show (draftOfEntries { tag := some el.tag } _).bind ElementDraft.finish = _
  rw [hread, hreadChildren]
  show Except.ok (Tree.element ⟨el.tag, attributes.getD []⟩ _) = _
  rw [hattributes]

/-- A node is read back if its fields are. -/
theorem Tree.ofValue_toValue_of_fields {tree : Tree} (h : ofEntries tree.type tree.fields = .ok tree) :
    ofValue tree.toValue = .ok tree := by
  have htype : NodeType.ofEntries none (("type", .string tree.type.name) :: tree.fields) = .ok tree.type := by
    rw [NodeType.ofEntries, if_pos rfl, NodeType.ofValue_name]
    exact NodeType.ofEntries_of_ne fun _ he => ne_type_of_mem_fields he
  rw [toValue_eq, ofValue, htype]
  show ofEntries tree.type _ = _
  rw [ofEntries_cons_type, h]

mutual

/-- The fields of a node are read back. By induction on the tree. -/
theorem Tree.ofEntries_fields : ∀ tree : Tree, ofEntries tree.type tree.fields = .ok tree
  | .element el children => ofEntries_fields_element el (ofValues_toValues children)
  | .text content => by
    rw [type, ofEntries]
    rfl
  | .comment content => by
    rw [type, ofEntries]
    rfl

/-- The nodes of a list are read back. -/
theorem Tree.ofValues_toValues : ∀ trees : List Tree, ofValues (toValues trees) = .ok trees
  | [] => by rw [toValues, ofValues]
  | tree :: trees => by
    rw [toValues, ofValues, ofValue_toValue_of_fields (ofEntries_fields tree), ofValues_toValues trees]
    rfl

end

/-! ## Nodes that are read at once -/

/-- The type of a node is read from its text. -/
theorem reads_typeDecoder (type : NodeType) : typeDecoder.Reads (.string type.name) type := by
  have hknown : NodeType.names.contains type.name = true := by
    cases type <;> decide
  have hreads := (Decoder.reads_variant hknown).map fun name => (NodeType.ofName? name).getD .comment
  rwa [NodeType.ofName?_name] at hreads

/-- A field behind the type is held as it is. -/
theorem readEntry_field {type : NodeType} {key : String} (hkey : key ≠ "type") (depth : Nat)
    (found : List (String × Value)) (input : List Char) : readEntry depth (some type, found) key (':' :: input)
      = (Json.value depth input).map fun (v, rest) => ((some type, found ++ [(key, v)]), rest) := by
  rw [readEntry, if_neg hkey]
  rfl

/-- The entries of a written node, the type first. -/
theorem Tree.readsEntries (tree : Tree) : ReadsEntries readEntry (none, [])
    (("type", .string tree.type.name) :: tree.fields) (some tree.type, tree.fields) := by
  refine .cons ((reads_typeDecoder tree.type).map fun type => (some type, [])) ?_
  have hplain := tree.numberless_toValue
  rw [toValue_eq] at hplain
  cases hplain with
  | object hplain =>
    refine Json.readsEntries_of_collects (fun found => (some tree.type, found)) [] ?_ ?_
    · exact fun e he depth found input => readEntry_field (ne_type_of_mem_fields he) depth found input
    · exact fun e he => (hplain e (List.mem_cons_of_mem _ he)).reads

/-- A written node is read as its type and its fields. -/
theorem reads_nodeParts (tree : Tree) : nodeParts.Reads tree.toValue (tree.type, .object tree.fields) := by
  refine ⟨tree.numberless_toValue, fun {depth level input tail} hinput => ?_⟩
  rw [Tree.toValue_eq] at hinput ⊢
  rw [Value.toList_write_object] at hinput
  rw [nodeParts, hinput]
  refine Json.gives_inside fun depth => .closeObject ?_ (Json.skipBlank_cons (by decide))
  exact (tree.readsEntries.gives rfl).bind_ok rfl

theorem Tree.reads (tree : Tree) : Tree.decoder.Reads tree.toValue tree := by
  refine ⟨tree.numberless_toValue, fun {depth level input tail} hinput => ?_⟩
  refine ((reads_nodeParts tree).gives hinput).bind_ok ?_
  simp only [ofEntries_fields]

/-! ## Documents -/

section Record

variable {state : List String × Document}

theorem reads_doctype (doctype : String) (hnew : state.1.contains "doctype" = false) :
    Decoder.Reads (fun depth input => Document.record.readField depth state "doctype" (':' :: input)) (.string doctype)
      ("doctype" :: state.1, { state.2 with doctype := some doctype }) :=
  Json.Record.reads_field (fun d doctype => { d with doctype }) rfl hnew (Decoder.reads_optional_string doctype)

/-- The nodes of a document are read back. -/
theorem reads_children (nodes : List Tree) (hnew : state.1.contains "children" = false) :
    Decoder.Reads (fun depth input => Document.record.readField depth state "children" (':' :: input))
      (.array (Tree.toValues nodes)) ("children" :: state.1, { state.2 with nodes }) := by
  rw [Tree.toValues_eq_map]
  have hnodes : (Decoder.list Tree.decoder).Reads (.array (nodes.map Tree.toValue)) nodes :=
    Decoder.Reads.list fun tree _ => tree.reads
  exact Json.Record.reads_field (r := Document.record) (fun d nodes => { d with nodes }) rfl hnew hnodes

end Record

/-- A written document is read back. -/
theorem Document.reads (d : Document) : Document.record.decoder.Reads d.toValue d := by
  obtain ⟨doctype, nodes⟩ := d
  cases doctype with
  | none =>
    have hentries : ReadsEntries record.readField ([], {}) [("children", .array (Tree.toValues nodes))]
        (["children"], { nodes }) := .cons (reads_children nodes rfl) (.nil _)
    exact Json.Record.reads hentries fun _ => rfl
  | some doctype =>
    have hentries : ReadsEntries record.readField ([], {})
        [("doctype", .string doctype), ("children", .array (Tree.toValues nodes))]
        (["children", "doctype"], { doctype := some doctype, nodes }) :=
      .cons (reads_doctype doctype rfl) (.cons (reads_children nodes rfl) (.nil _))
    exact Json.Record.reads hentries fun _ => rfl

/-- A document that is written as text is read back as it is when its text nests containers at most 127 deep, and is
refused for its nesting otherwise. Never is another document read. -/
theorem Document.ofJson_toJson (d : Document) :
    (Json.nestingOf d.toJson ≤ 127 → ofJson d.toJson = .ok d) ∧
    (127 < Json.nestingOf d.toJson → ∃ place, ofJson d.toJson = .error ⟨.tooDeep, some place⟩) ∧
    ∀ d', ofJson d.toJson = .ok d' → d' = d := by
  obtain ⟨hok, hrefused⟩ := d.reads.decode
  refine ⟨hok, fun hdeep => hrefused (Nat.not_le_of_lt hdeep), fun d' hread => ?_⟩
  by_cases hfits : Json.nestingOf d.toJson ≤ Json.maxDepth
  · have hsame : Except.ok d' = Except.ok d := hread.symm.trans (hok hfits)
    exact Except.ok.inj hsame
  · obtain ⟨place, herror⟩ := hrefused hfits
    exact absurd (hread.symm.trans herror) nofun

end AmpTuner.Markup
