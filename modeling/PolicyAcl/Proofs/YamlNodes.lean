import PolicyAcl.Config.Basic
import PolicyAcl.Proofs.YamlScalars
import PolicyAcl.Yaml.Reference

/-! The nodes that the tokens of a JSON value make up. They may not make up one at all, but only
if the value has a string that no configuration has. -/
namespace PolicyAcl.Yaml

open Json (Value)

/-- A key of a configuration. -/
def IsKey (name : String) : Prop := name ∈ [Config.familiesKey, Config.ipv4Key, Config.ipv6Key]

/-- A value with a string at some depth that is no key of a configuration. -/
inductive Strange : Value → Prop
  | string {name : String} : ¬IsKey name → Strange (.string name)
  | item {items : List Value} {value : Value} : value ∈ items → Strange value → Strange (.array items)
  | name {fields : List (String × Value)} {field : String × Value} : field ∈ fields → ¬IsKey field.1 →
      Strange (.object fields)
  | field {fields : List (String × Value)} {field : String × Value} : field ∈ fields →
      Strange field.2 → Strange (.object fields)

theorem Strange.more_items {items more : List Value} (strange : Strange (.array items))
    (sub : items ⊆ more) : Strange (.array more) := by
  cases strange with
  | item member strange => exact .item (sub member) strange

theorem Strange.more_fields {fields more : List (String × Value)} (strange : Strange (.object fields))
    (sub : fields ⊆ more) : Strange (.object more) := by
  cases strange with
  | name member other => exact .name (sub member) other
  | field member strange => exact .field (sub member) strange

/-- A text that is no other key than the name it is read for. -/
def SameKey (name text : String) : Prop := ∀ key, IsKey key → (text = key ↔ name = key)

mutual

/-- A node that stands for a value, as far as a configuration can tell. -/
inductive Like : Value → Node Nat → Prop
  | null : Like .null (.scalar none .plain "null")
  | boolTrue : Like (.bool true) (.scalar none .plain "true")
  | boolFalse : Like (.bool false) (.scalar none .plain "false")
  | number {number : Json.Number} {word : String} : word ≠ "" → Numeral word.toList →
      Like (.number number) (.scalar none .plain word)
  | string {name text : String} : Like (.string name) (.scalar none .doubleQuoted text)
  | array {items : List Value} {nodes : List (Node Nat)} : Like (.array items) (.sequence none nodes)
  | object {fields : List (String × Value)} {entries : List (Node Nat × Node Nat)} :
      LikeFields fields entries → Like (.object fields) (.mapping none entries)

inductive LikeFields : List (String × Value) → List (Node Nat × Node Nat) → Prop
  | nil : LikeFields [] []
  | cons {name text : String} {value : Value} {node : Node Nat} {fields : List (String × Value)}
      {entries : List (Node Nat × Node Nat)} : SameKey name text → Like value node →
      LikeFields fields entries →
      LikeFields ((name, value) :: fields) ((.scalar none .doubleQuoted text, node) :: entries)

end

/-- A node without anchors and references that stands for a value. -/
def Represents (value : Value) (node : Node String) : Prop :=
  ∃ numbered, node.number? [] = some (numbered, [], []) ∧ Like value numbered

/-- The first token of a node. -/
def Token.opens : Token → Bool
  | .scalar .. | .flowSequenceStart | .flowMappingStart => true
  | _ => false

def Opened (tokens : List Token) : Prop := ∃ first more, tokens = first :: more ∧ first.opens = true

/-- Tokens that are read as a node for the value, whatever follows them. -/
structure Reads (value : Value) (tokens : List Token) : Prop where
  opened : Opened tokens
  read : ∀ fuel place rest, 2 * tokens.length ≤ fuel →
    (Node.read? fuel place (tokens ++ rest) = none ∧ Strange value) ∨
      ∃ node, Node.read? fuel place (tokens ++ rest) = some (node, rest) ∧ Represents value node

/-- Tokens that are read as the items of a sequence. -/
structure ReadsItems (items : List Value) (tokens : List Token) : Prop where
  opened : Opened tokens
  read : ∀ fuel rest, 2 * tokens.length < fuel →
    (Node.readFlowItems? fuel (tokens ++ .flowSequenceEnd :: rest) = none ∧ Strange (.array items)) ∨
      ∃ nodes, Node.readFlowItems? fuel (tokens ++ .flowSequenceEnd :: rest) = some (nodes, rest) ∧
        ∃ numbered, Node.numberItems? [] nodes = some (numbered, [], [])

/-- Tokens that are read as the entries of a mapping. -/
structure ReadsFields (fields : List (String × Value)) (tokens : List Token) : Prop where
  opened : ∃ first more, tokens = first :: more ∧ first ≠ .flowMappingEnd
  read : ∀ fuel rest, 2 * tokens.length ≤ fuel →
    (Node.readFlowEntries? fuel (tokens ++ .flowMappingEnd :: rest) = none ∧ Strange (.object fields)) ∨
      ∃ entries, Node.readFlowEntries? fuel (tokens ++ .flowMappingEnd :: rest) = some (entries, rest) ∧
        ∃ numbered, Node.numberEntries? [] entries = some (numbered, [], []) ∧ LikeFields fields numbered

variable {value : Value} {tokens rest : List Token} {fuel : Nat} {place : Node.Place}

/-! The equations of the reader at the tokens of flow collections. -/

theorem read?_sequence (opened : Opened tokens) :
    Node.read? (fuel + 2) place (.flowSequenceStart :: tokens) =
      (Node.readFlowItems? fuel tokens).map fun (items, rest) => (.sequence none items, rest) := by
  obtain ⟨first, more, rfl, opens⟩ := opened
  cases first <;> first | rfl | cases opens

theorem read?_mapping {first : Token} (opened : first ≠ .flowMappingEnd) :
    Node.read? (fuel + 2) place (.flowMappingStart :: first :: tokens) =
      (Node.readFlowEntries? fuel (first :: tokens)).map
        fun (entries, rest) => (.mapping none entries, rest) := by
  cases first <;> first | rfl | exact absurd rfl opened

/-- What follows an item of a sequence. -/
def afterItem? (fuel : Nat) (item : Node String) : List Token → Option (List (Node String) × List Token)
  | .flowEntry :: .flowSequenceEnd :: rest => some ([item], rest)
  | .flowEntry :: rest => (Node.readFlowItems? fuel rest).map fun (items, rest) => (item :: items, rest)
  | .flowSequenceEnd :: rest => some ([item], rest)
  | _ => none

theorem readFlowItems?_item (opened : Opened tokens) :
    Node.readFlowItems? (fuel + 1) tokens =
      (Node.read? fuel .flow tokens).bind fun (item, rest) => afterItem? fuel item rest := by
  obtain ⟨first, more, rfl, opens⟩ := opened
  have same (item : Node String) (rest : List Token) : afterItem? fuel item rest =
      (match rest with
        | .flowEntry :: .flowSequenceEnd :: rest => return ([item], rest)
        | .flowEntry :: rest => do
          let (items, rest) ← Node.readFlowItems? fuel rest
          return (item :: items, rest)
        | .flowSequenceEnd :: rest => return ([item], rest)
        | _ => none) := by
    unfold afterItem?
    split <;> first | rfl | skip
    cases Node.readFlowItems? fuel _ <;> rfl
  simp only [same]
  cases first <;> first | rfl | cases opens

/-- What follows an entry of a mapping. -/
def afterEntry? (fuel : Nat) (entry : Node String × Node String) :
    List Token → Option (List (Node String × Node String) × List Token)
  | .flowEntry :: .flowMappingEnd :: rest => some ([entry], rest)
  | .flowEntry :: rest =>
    (Node.readFlowEntries? fuel rest).map fun (entries, rest) => (entry :: entries, rest)
  | .flowMappingEnd :: rest => some ([entry], rest)
  | _ => none

theorem readFlowEntries?_late (style : Style) (text : String) :
    Node.readFlowEntries? fuel (.scalar style text :: .value :: rest) = none := by
  rcases fuel with _ | _ | _ | fuel <;> rfl

theorem readFlowEntries?_named (opened : Opened tokens) (style : Style) (text : String) :
    Node.readFlowEntries? (fuel + 4) (.key :: .scalar style text :: .value :: tokens) =
      (Node.read? (fuel + 1) .flow tokens).bind fun (value, rest) =>
        afterEntry? (fuel + 3) (.scalar none style text, value) rest := by
  obtain ⟨first, more, rfl, opens⟩ := opened
  have same (entry : Node String × Node String) (rest : List Token) : afterEntry? (fuel + 3) entry rest =
      (match rest with
        | .flowEntry :: .flowMappingEnd :: rest => return ([entry], rest)
        | .flowEntry :: rest => do
          let (entries, rest) ← Node.readFlowEntries? (fuel + 3) rest
          return (entry :: entries, rest)
        | .flowMappingEnd :: rest => return ([entry], rest)
        | _ => none) := by
    unfold afterEntry?
    split <;> first | rfl | skip
    cases Node.readFlowEntries? _ _ <;> rfl
  have value : Node.readValue? (fuel + 3) .flow [.flowEntry, .flowMappingEnd] (.value :: first :: more) =
      Node.read? (fuel + 1) .flow (first :: more) := by
    cases first <;> first | rfl | cases opens
  have key : Node.readOptional? (fuel + 3) .flow [.value, .flowEntry, .flowMappingEnd]
      (.scalar style text :: .value :: first :: more) =
        some (.scalar none style text, .value :: first :: more) := rfl
  rw [Node.readFlowEntries?]
  simp only [key, value, same, Option.bind_eq_bind, Option.bind_some]
  cases Node.read? (fuel + 1) .flow (first :: more) <;> rfl

/-! Values from their parts. -/

theorem Opened.append (opened : Opened tokens) (rest : List Token) : Opened (tokens ++ rest) := by
  obtain ⟨first, more, rfl, opens⟩ := opened
  exact ⟨first, more ++ rest, rfl, opens⟩

theorem Reads.scalar {style : Style} {text : String} (like : Like value (.scalar none style text)) :
    Reads value [.scalar style text] where
  opened := ⟨_, _, rfl, rfl⟩
  read fuel place rest enough := by
    obtain ⟨fuel, rfl⟩ : ∃ fuel', fuel = fuel' + 2 := ⟨fuel - 2, by simp at enough; omega⟩
    exact .inr ⟨_, rfl, _, rfl, like⟩

theorem Reads.noItems : Reads (.array []) [.flowSequenceStart, .flowSequenceEnd] where
  opened := ⟨_, _, rfl, rfl⟩
  read fuel place rest enough := by
    obtain ⟨fuel, rfl⟩ : ∃ fuel', fuel = fuel' + 2 := ⟨fuel - 2, by simp at enough; omega⟩
    exact .inr ⟨_, rfl, _, rfl, .array⟩

theorem Reads.array {items : List Value} (reads : ReadsItems items tokens) :
    Reads (.array items) (.flowSequenceStart :: (tokens ++ [.flowSequenceEnd])) where
  opened := ⟨_, _, rfl, rfl⟩
  read fuel place rest enough := by
    simp only [List.length_cons, List.length_append, List.length_nil] at enough
    obtain ⟨fuel, rfl⟩ : ∃ fuel', fuel = fuel' + 2 := ⟨fuel - 2, by omega⟩
    rw [List.cons_append, List.append_assoc, read?_sequence (reads.opened.append _)]
    obtain ⟨failed, strange⟩ | ⟨nodes, read, numbered, same⟩ := reads.read fuel rest (by omega)
    · exact .inl ⟨by rw [List.singleton_append, failed, Option.map_none], strange⟩
    · refine .inr ⟨_, by rw [List.singleton_append, read, Option.map_some], .sequence none numbered, ?_,
        .array⟩
      simp [Node.number?, Node.defineAnchor, Node.target, same]

theorem numberItems?_cons {item : Node String} {items : List (Node String)} {numbered : Node Nat}
    {more : List (Node Nat)} (first : item.number? [] = some (numbered, [], []))
    (later : Node.numberItems? [] items = some (more, [], [])) :
    Node.numberItems? [] (item :: items) = some (numbered :: more, [], []) := by
  simp [Node.numberItems?, first, later]

theorem afterItem?_more (opened : Opened tokens) (item : Node String) :
    afterItem? fuel item (.flowEntry :: tokens) =
      (Node.readFlowItems? fuel tokens).map fun (items, rest) => (item :: items, rest) := by
  obtain ⟨first, more, rfl, opens⟩ := opened
  cases first <;> first | rfl | cases opens

theorem ReadsItems.last (reads : Reads value tokens) : ReadsItems [value] tokens where
  opened := reads.opened
  read fuel rest enough := by
    obtain ⟨fuel, rfl⟩ : ∃ fuel', fuel = fuel' + 1 := ⟨fuel - 1, by omega⟩
    rw [readFlowItems?_item (reads.opened.append _)]
    obtain ⟨failed, strange⟩ | ⟨node, read, numbered, same, -⟩ :=
      reads.read fuel .flow (.flowSequenceEnd :: rest) (by omega)
    · exact .inl ⟨by rw [failed, Option.bind_none], .item List.mem_cons_self strange⟩
    · exact .inr ⟨_, by rw [read]; rfl, _, numberItems?_cons same rfl⟩

theorem ReadsItems.more {items : List Value} {later : List Token} (reads : Reads value tokens)
    (reads' : ReadsItems items later) : ReadsItems (value :: items) (tokens ++ .flowEntry :: later) where
  opened := reads.opened.append _
  read fuel rest enough := by
    simp only [List.length_cons, List.length_append] at enough
    obtain ⟨fuel, rfl⟩ : ∃ fuel', fuel = fuel' + 1 := ⟨fuel - 1, by omega⟩
    rw [List.append_assoc, readFlowItems?_item (reads.opened.append _)]
    obtain ⟨failed, strange⟩ | ⟨node, read, numbered, same, -⟩ :=
      reads.read fuel .flow (.flowEntry :: later ++ .flowSequenceEnd :: rest) (by omega)
    · exact .inl ⟨by rw [failed, Option.bind_none], .item List.mem_cons_self strange⟩
    rw [read, Option.bind_some]
    dsimp only
    rw [List.cons_append, afterItem?_more (reads'.opened.append _)]
    obtain ⟨failed, strange⟩ | ⟨nodes, read', more, same'⟩ := reads'.read fuel rest (by omega)
    · exact .inl ⟨by rw [failed, Option.map_none], strange.more_items (List.subset_cons_self _ _)⟩
    · exact .inr ⟨_, by rw [read', Option.map_some], _, numberItems?_cons same same'⟩

/-- The tokens of a field. A name that no configuration has may be noticed too late to be marked
as a key. -/
inductive FieldTokens : String × Value → List Token → Prop
  | key {name text : String} {value : Value} {tokens : List Token} : SameKey name text →
      Reads value tokens →
      FieldTokens (name, value) (.key :: .scalar .doubleQuoted text :: .value :: tokens)
  | late {name text : String} {value : Value} {tokens : List Token} : ¬IsKey name →
      FieldTokens (name, value) (.scalar .doubleQuoted text :: .value :: tokens)

theorem FieldTokens.opened {field : String × Value} (fieldTokens : FieldTokens field tokens) :
    ∃ first more, tokens = first :: more ∧ first ≠ .flowMappingEnd := by
  cases fieldTokens <;> exact ⟨_, _, rfl, nofun⟩

theorem FieldTokens.read {field : String × Value} (fieldTokens : FieldTokens field tokens)
    (fuel : Nat) (rest : List Token) (enough : 2 * tokens.length ≤ fuel + 1) :
    (Node.readFlowEntries? (fuel + 1) (tokens ++ rest) = none ∧ Strange (.object [field])) ∨
      ∃ text node, Node.readFlowEntries? (fuel + 1) (tokens ++ rest) =
          afterEntry? fuel (.scalar none .doubleQuoted text, node) rest ∧
        SameKey field.1 text ∧ Represents field.2 node := by
  cases fieldTokens with
  | late other => exact .inl ⟨readFlowEntries?_late _ _, .name List.mem_cons_self other⟩
  | @key name text value tokens same reads =>
      simp only [List.length_cons] at enough
      obtain ⟨fuel, rfl⟩ : ∃ fuel', fuel = fuel' + 3 := ⟨fuel - 3, by omega⟩
      simp only [List.cons_append]
      rw [readFlowEntries?_named (reads.opened.append rest)]
      obtain ⟨failed, strange⟩ | ⟨node, read, like⟩ := reads.read (fuel + 1) .flow rest (by omega)
      · exact .inl ⟨by rw [failed, Option.bind_none], .field List.mem_cons_self strange⟩
      · exact .inr ⟨text, node, by rw [read, Option.bind_some], same, like⟩

theorem numberEntries?_cons {text : String} {value : Node String}
    {entries : List (Node String × Node String)} {numbered : Node Nat} {more : List (Node Nat × Node Nat)}
    (first : value.number? [] = some (numbered, [], []))
    (later : Node.numberEntries? [] entries = some (more, [], [])) :
    Node.numberEntries? [] ((.scalar none .doubleQuoted text, value) :: entries) =
      some ((.scalar none .doubleQuoted text, numbered) :: more, [], []) := by
  simp [Node.numberEntries?, Node.number?, Node.defineAnchor, Node.target, first, later]

theorem afterEntry?_more {first : Token} (opened : first ≠ .flowMappingEnd)
    (entry : Node String × Node String) :
    afterEntry? fuel entry (.flowEntry :: first :: tokens) =
      (Node.readFlowEntries? fuel (first :: tokens)).map
        fun (entries, rest) => (entry :: entries, rest) := by
  cases first <;> first | rfl | exact absurd rfl opened

theorem ReadsFields.last {field : String × Value} (fieldTokens : FieldTokens field tokens) :
    ReadsFields [field] tokens where
  opened := fieldTokens.opened
  read fuel rest enough := by
    obtain ⟨first, more, rfl, -⟩ := fieldTokens.opened
    obtain ⟨fuel, rfl⟩ : ∃ fuel', fuel = fuel' + 1 := ⟨fuel - 1, by simp at enough; omega⟩
    obtain failed | ⟨text, node, read, same, numbered, number, like⟩ :=
      fieldTokens.read fuel (.flowMappingEnd :: rest) enough
    · exact .inl failed
    · exact .inr ⟨_, read, _, numberEntries?_cons number rfl, .cons same like .nil⟩

theorem ReadsFields.more {field : String × Value} {fields : List (String × Value)} {later : List Token}
    (fieldTokens : FieldTokens field tokens) (reads : ReadsFields fields later) :
    ReadsFields (field :: fields) (tokens ++ .flowEntry :: later) where
  opened := by
    obtain ⟨first, more, rfl, opened⟩ := fieldTokens.opened
    exact ⟨first, _, rfl, opened⟩
  read fuel rest enough := by
    simp only [List.length_cons, List.length_append] at enough
    obtain ⟨fuel, rfl⟩ : ∃ fuel', fuel = fuel' + 1 := ⟨fuel - 1, by omega⟩
    rw [List.append_assoc, List.cons_append]
    obtain ⟨failed, strange⟩ | ⟨text, node, read, same, numbered, number, like⟩ :=
      fieldTokens.read fuel (.flowEntry :: (later ++ .flowMappingEnd :: rest)) (by omega)
    · exact .inl ⟨failed, strange.more_fields (by simp)⟩
    obtain ⟨first, more, rfl, opened⟩ := reads.opened
    rw [read, List.cons_append, afterEntry?_more opened, ← List.cons_append]
    obtain ⟨failed, strange⟩ | ⟨entries, read', numbereds, number', likes⟩ :=
      reads.read fuel rest (by omega)
    · exact .inl ⟨by rw [failed, Option.map_none], strange.more_fields (List.subset_cons_self _ _)⟩
    · exact .inr ⟨_, by rw [read', Option.map_some], _, numberEntries?_cons number number',
        .cons same like likes⟩

theorem Reads.noFields : Reads (.object []) [.flowMappingStart, .flowMappingEnd] where
  opened := ⟨_, _, rfl, rfl⟩
  read fuel place rest enough := by
    obtain ⟨fuel, rfl⟩ : ∃ fuel', fuel = fuel' + 2 := ⟨fuel - 2, by simp at enough; omega⟩
    exact .inr ⟨_, rfl, _, rfl, .object .nil⟩

theorem Reads.object {fields : List (String × Value)} (reads : ReadsFields fields tokens) :
    Reads (.object fields) (.flowMappingStart :: (tokens ++ [.flowMappingEnd])) where
  opened := ⟨_, _, rfl, rfl⟩
  read fuel place rest enough := by
    simp only [List.length_cons, List.length_append, List.length_nil] at enough
    obtain ⟨fuel, rfl⟩ : ∃ fuel', fuel = fuel' + 2 := ⟨fuel - 2, by omega⟩
    obtain ⟨first, more, rfl, opened⟩ := reads.opened
    rw [List.cons_append, List.append_assoc, List.cons_append, read?_mapping opened, ← List.cons_append]
    obtain ⟨failed, strange⟩ | ⟨entries, read, numbered, same, likes⟩ := reads.read fuel rest (by omega)
    · exact .inl ⟨by rw [List.singleton_append, failed, Option.map_none], strange⟩
    · refine .inr ⟨_, by rw [List.singleton_append, read, Option.map_some], .mapping none numbered, ?_,
        .object likes⟩
      simp [Node.number?, Node.defineAnchor, Node.target, same]

theorem Opened.document? (opened : Opened tokens) :
    Node.document? tokens = match Node.read? (4 * tokens.length + 4) .block tokens with
      | some (root, rest) => if rest.all (· = .documentEnd) then some (some root) else none
      | none => none := by
  obtain ⟨first, more, rfl, opens⟩ := opened
  cases first <;> first | rfl | cases opens

/-- The document that the tokens of a value make up. -/
theorem Reads.document (reads : Reads value tokens) :
    (Node.document? tokens = none ∧ Strange value) ∨
      ∃ node, Node.document? tokens = some (some node) ∧ Represents value node := by
  have read := reads.read (4 * tokens.length + 4) .block [] (by omega)
  rw [List.append_nil] at read
  rw [reads.opened.document?]
  obtain ⟨failed, strange⟩ | ⟨node, read, like⟩ := read
  · exact .inl ⟨by rw [failed], strange⟩
  · exact .inr ⟨node, by rw [read]; rfl, like⟩

end PolicyAcl.Yaml
