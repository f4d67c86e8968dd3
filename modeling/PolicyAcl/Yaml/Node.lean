import PolicyAcl.Yaml.Token

/-! Nodes of a YAML document. Where a node may be left out, an empty plain scalar
stands for it. -/
namespace PolicyAcl.Yaml

/-- A node whose references are of type `ρ`. -/
inductive Node (ρ : Type) where
  | reference (target : ρ)
  | scalar (anchor : Option String) (style : Style) (text : String)
  | sequence (anchor : Option String) (items : List (Node ρ))
  | mapping (anchor : Option String) (entries : List (Node ρ × Node ρ))
deriving Repr

namespace Node

def empty {ρ : Type} : Node ρ := .scalar none .plain ""

/-- The places of a node: in a block collection, where a sequence may also do
without an indentation of its own, or in a flow collection. -/
inductive Place where
  | block
  | blockValue
  | flow
deriving DecidableEq, Repr

/-- The first token is none of `ends`, so that a node is there. -/
def isPresent (ends : List Token) (tokens : List Token) : Bool :=
  !tokens.head?.any fun token => token ∈ ends

mutual

/-- One node and the tokens after it. -/
def read? : Nat → Place → List Token → Option (Node String × List Token)
  | 0, _, _ => none
  | fuel + 1, place, tokens =>
    match tokens with
    | .reference name :: rest => some (.reference name, rest)
    | .anchor name :: rest => readContent? fuel place (some name) rest
    | tokens => readContent? fuel place none tokens

/-- A node after its anchor. An anchor alone is an empty node. -/
def readContent? : Nat → Place → Option String → List Token →
    Option (Node String × List Token)
  | 0, _, _, _ => none
  | fuel + 1, place, anchor, tokens =>
    match tokens with
    | .scalar style text :: rest => some (.scalar anchor style text, rest)
    | .flowSequenceStart :: rest =>
      match rest with
      | .flowSequenceEnd :: rest => some (.sequence anchor [], rest)
      | rest => (readFlowItems? fuel rest).map fun (items, rest) => (.sequence anchor items, rest)
    | .flowMappingStart :: rest =>
      match rest with
      | .flowMappingEnd :: rest => some (.mapping anchor [], rest)
      | rest =>
        (readFlowEntries? fuel rest).map fun (entries, rest) => (.mapping anchor entries, rest)
    | tokens =>
      match place, tokens with
      | .blockValue, .blockEntry :: _ =>
        (readOpenItems? fuel tokens).map fun (items, rest) => (.sequence anchor items, rest)
      | .block, .blockSequenceStart :: rest | .blockValue, .blockSequenceStart :: rest =>
        (readBlockItems? fuel rest).map fun (items, rest) => (.sequence anchor items, rest)
      | .block, .blockMappingStart :: rest | .blockValue, .blockMappingStart :: rest =>
        (readBlockEntries? fuel rest).map fun (entries, rest) => (.mapping anchor entries, rest)
      | _, tokens => if anchor.isSome then some (.scalar anchor .plain "", tokens) else none

/-- A node, or an empty one if one of `ends` is next. -/
def readOptional? : Nat → Place → List Token → List Token → Option (Node String × List Token)
  | 0, _, _, _ => none
  | fuel + 1, place, ends, tokens =>
    if isPresent ends tokens then read? fuel place tokens else some (empty, tokens)

/-- The value of an entry, if there is one. -/
def readValue? : Nat → Place → List Token → List Token → Option (Node String × List Token)
  | 0, _, _, _ => none
  | fuel + 1, place, ends, tokens =>
    match tokens with
    | .value :: rest => readOptional? fuel place ends rest
    | tokens => some (empty, tokens)

/-- The items of a block sequence, and its end. -/
def readBlockItems? : Nat → List Token → Option (List (Node String) × List Token)
  | 0, _ => none
  | fuel + 1, tokens =>
    match tokens with
    | .blockEnd :: rest => some ([], rest)
    | .blockEntry :: rest => do
      let (item, rest) ← readOptional? fuel .block [.blockEntry, .blockEnd] rest
      let (items, rest) ← readBlockItems? fuel rest
      return (item :: items, rest)
    | _ => none

/-- The items of a block sequence without an indentation of its own. -/
def readOpenItems? : Nat → List Token → Option (List (Node String) × List Token)
  | 0, _ => none
  | fuel + 1, tokens =>
    match tokens with
    | .blockEntry :: rest => do
      let (item, rest) ← readOptional? fuel .block [.blockEntry, .key, .value, .blockEnd] rest
      let (items, rest) ← readOpenItems? fuel rest
      return (item :: items, rest)
    | tokens => some ([], tokens)

/-- The entries of a block mapping, and its end. -/
def readBlockEntries? : Nat → List Token → Option (List (Node String × Node String) × List Token)
  | 0, _ => none
  | fuel + 1, tokens =>
    match tokens with
    | .blockEnd :: rest => some ([], rest)
    | .key :: rest => do
      let (key, rest) ← readOptional? fuel .blockValue [.key, .value, .blockEnd] rest
      let (value, rest) ← readValue? fuel .blockValue [.key, .value, .blockEnd] rest
      let (entries, rest) ← readBlockEntries? fuel rest
      return ((key, value) :: entries, rest)
    | _ => none

/-- One or more items of a flow sequence, and its end. An item with a key is a
mapping of one entry. -/
def readFlowItems? : Nat → List Token → Option (List (Node String) × List Token)
  | 0, _ => none
  | fuel + 1, tokens => do
    let (item, rest) ← match tokens with
      | .key :: rest => do
        let (key, rest) ← readOptional? fuel .flow [.value, .flowEntry, .flowSequenceEnd] rest
        let (value, rest) ← readValue? fuel .flow [.flowEntry, .flowSequenceEnd] rest
        pure (.mapping none [(key, value)], rest)
      | tokens => read? fuel .flow tokens
    match rest with
    | .flowEntry :: .flowSequenceEnd :: rest => return ([item], rest)
    | .flowEntry :: rest => do
      let (items, rest) ← readFlowItems? fuel rest
      return (item :: items, rest)
    | .flowSequenceEnd :: rest => return ([item], rest)
    | _ => none

/-- One or more entries of a flow mapping, and its end. A node without a key
token is a key without a value. -/
def readFlowEntries? : Nat → List Token → Option (List (Node String × Node String) × List Token)
  | 0, _ => none
  | fuel + 1, tokens => do
    let (entry, rest) ← match tokens with
      | .key :: rest => do
        let (key, rest) ← readOptional? fuel .flow [.value, .flowEntry, .flowMappingEnd] rest
        let (value, rest) ← readValue? fuel .flow [.flowEntry, .flowMappingEnd] rest
        pure ((key, value), rest)
      | tokens => do
        let (key, rest) ← read? fuel .flow tokens
        pure ((key, empty), rest)
    match rest with
    | .flowEntry :: .flowMappingEnd :: rest => return ([entry], rest)
    | .flowEntry :: rest => do
      let (entries, rest) ← readFlowEntries? fuel rest
      return (entry :: entries, rest)
    | .flowMappingEnd :: rest => return ([entry], rest)
    | _ => none

end

/-- The root of the one document that the tokens make up; no root if there are
no tokens. -/
def document? (tokens : List Token) : Option (Option (Node String)) :=
  let fuel := 4 * tokens.length + 4
  let root? : Option (Node String × List Token) :=
    match tokens with
    | .documentStart :: rest =>
      match rest with
      | [] => some (empty, [])
      | .documentStart :: _ => some (empty, rest)
      | .documentEnd :: _ => some (empty, rest)
      | rest => read? fuel .block rest
    | tokens => read? fuel .block tokens
  if tokens = [] then some none
  else
    match root? with
    | some (root, rest) => if rest.all (· = .documentEnd) then some (some root) else none
    | none => none

end Node

end PolicyAcl.Yaml
