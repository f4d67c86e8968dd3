import PolicyAcl.Yaml.Node

/-! What references stand for. An anchor gets, as its number, the number of
different anchor names before it in the document; a reference takes the number
that its name has at that place. It stands for the last node of the document
whose anchor got this number. -/
namespace PolicyAcl.Yaml

/-- The number of each anchor name so far; a name is there once. -/
abbrev Anchors := List (String × Nat)

def Anchors.define (anchors : Anchors) (name : String) : Anchors :=
  (name, anchors.length) :: anchors.filter (·.1 ≠ name)

/-- The anchored nodes of a document by their numbers, in document order. -/
abbrev Targets := List (Nat × Node Nat)

namespace Node

/-- The anchors after an optional one, and the entry for a node that has it. -/
def defineAnchor (anchors : Anchors) : Option String → Anchors
  | none => anchors
  | some name => anchors.define name

def target (anchors : Anchors) (anchor : Option String) (node : Node Nat) : Targets :=
  match anchor with
  | none => []
  | some _ => [(anchors.length, node)]

mutual

/-- Number the references of a node. Fails at a name without an anchor before it. -/
def number? (anchors : Anchors) : Node String → Option (Node Nat × Anchors × Targets)
  | .reference name => (anchors.lookup name).map fun n => (.reference n, anchors, [])
  | .scalar anchor style text =>
    let node := .scalar anchor style text
    some (node, defineAnchor anchors anchor, target anchors anchor node)
  | .sequence anchor items => do
    let (items, after, targets) ← numberItems? (defineAnchor anchors anchor) items
    let node := .sequence anchor items
    return (node, after, target anchors anchor node ++ targets)
  | .mapping anchor entries => do
    let (entries, after, targets) ← numberEntries? (defineAnchor anchors anchor) entries
    let node := .mapping anchor entries
    return (node, after, target anchors anchor node ++ targets)

def numberItems? (anchors : Anchors) :
    List (Node String) → Option (List (Node Nat) × Anchors × Targets)
  | [] => some ([], anchors, [])
  | item :: items => do
    let (item, anchors, targets) ← number? anchors item
    let (items, anchors, more) ← numberItems? anchors items
    return (item :: items, anchors, targets ++ more)

def numberEntries? (anchors : Anchors) :
    List (Node String × Node String) → Option (List (Node Nat × Node Nat) × Anchors × Targets)
  | [] => some ([], anchors, [])
  | (key, value) :: entries => do
    let (key, anchors, targets) ← number? anchors key
    let (value, anchors, more) ← number? anchors value
    let (entries, anchors, rest) ← numberEntries? anchors entries
    return ((key, value) :: entries, anchors, targets ++ more ++ rest)

end

/-- The node that stands at some place of a document. An anchored node is never
a reference itself. -/
def resolve? (targets : Targets) : Node Nat → Option (Node Nat)
  | .reference n => targets.reverse.lookup n
  | node => some node

end Node

/-- A document: its root, and the nodes that references stand for. -/
structure Document where
  root : Node Nat
  targets : Targets

/-- The one document of a text, if it has one. -/
def document? (text : List Char) : Option (Option Document) := do
  match ← Node.document? (← tokens? text) with
  | none => return none
  | some root =>
    let (root, _, targets) ← root.number? []
    return some { root, targets }

end PolicyAcl.Yaml
