import PolicyAcl.Block
import PolicyAcl.PeerSet.Basic
import PolicyAcl.Port

/-! One ingress or egress rule of a network policy, and the matches and texts it
is rendered into. -/
namespace PolicyAcl

inductive Direction where
  | ingress
  | egress
deriving DecidableEq, Repr

namespace Direction

def name : Direction → String
  | .ingress => "ingress"
  | .egress => "egress"

/-- The packet field that carries the peer's address. -/
def peerField : Direction → String
  | .ingress => "src"
  | .egress => "dst"

end Direction

/-- What tells a rule apart from all others. -/
structure RuleId where
  direction : Direction
  index : UInt64
  ns : String
  policy : String
deriving DecidableEq, Repr

def RuleId.setName (id : RuleId) : String :=
  id.ns ++ "." ++ id.policy ++ "." ++ id.direction.name ++ "." ++ id.index.toNat.repr

/-- A rule has no peer set until one is ensured, and none after it was destroyed. -/
structure Rule where
  id : RuleId
  families : Families
  blocks : List Block := []
  ports : List PortPolicy := []
  peers : Option PeerSet := none
  namespaces : Std.ExtTreeSet String := ∅

namespace Rule

def addBlock (rule : Rule) (block : Block) : Rule := { rule with blocks := rule.blocks ++ [block] }

def addPort (rule : Rule) (port : PortPolicy) : Rule := { rule with ports := rule.ports ++ [port] }

/-- Track the address set of a namespace. The answer tells whether it was not
tracked already. -/
def addNamespace (rule : Rule) (name : String) : Bool × Rule :=
  (!rule.namespaces.contains name, { rule with namespaces := rule.namespaces.insert name })

/-- Stop tracking the address set of a namespace. The answer tells whether it
was tracked. -/
def removeNamespace (rule : Rule) (name : String) : Bool × Rule :=
  (rule.namespaces.contains name, { rule with namespaces := rule.namespaces.erase name })

def peerAddresses (rule : Rule) : List Address :=
  match rule.peers with
  | some peers => peers.addresses
  | none => []

def portMatches (rule : Rule) : List String :=
  (rule.ports.map PortPolicy.matchText).filter (· ≠ "")

def blockMatches (rule : Rule) (lport l4 : String) : List String :=
  rule.blocks.map (Block.matchWith lport l4)

/-- The block matches of all access-control entries: one per block for each
supported port, or without a transport fragment if the rule has no port at all. -/
def aclMatches (rule : Rule) (lport : String) : List String :=
  if rule.ports = [] then rule.blockMatches lport ""
  else rule.portMatches.flatMap (rule.blockMatches lport)

/-- The base names of the address sets that the rule refers to. -/
def referenced (rule : Rule) : Std.ExtTreeSet String :=
  match rule.peers with
  | some peers => rule.namespaces.insert peers.name
  | none => rule.namespaces

/-- The clause of one family over sets of these base names. -/
def addressClause (field : String) (bases : List String) (family : Family) : String :=
  family.token ++ "." ++ field ++ " == " ++
    braced (", ".intercalate (bases.map fun base => "$" ++ family.setName base))

/-- The match over the address sets that the rule refers to, with one clause per
enabled family; nothing if it refers to none. -/
def addressMatch? (rule : Rule) : Option String :=
  if rule.referenced.isEmpty then none
  else
    some ("(" ++ " || ".intercalate (rule.families.enabled.map
      (addressClause rule.id.direction.peerField rule.referenced.toList)) ++ ")")

def heading (id : RuleId) : String :=
  " ━━━━━━━━━━━━━━━━━ " ++ id.ns ++ "/" ++ id.policy ++ " " ++ id.direction.name ++ " rule " ++
    id.index.toNat.repr ++ " ━━━━━━━━━━━━━━━━━\n"

def displayLines (entries : List String) : String :=
  String.join (entries.map fun entry => "   " ++ entry ++ "\n")

def display (rule : Rule) : String :=
  heading rule.id ++ " ip blocks:\n" ++ displayLines (rule.blocks.map Block.display) ++
    " ports:\n" ++ displayLines (rule.ports.map PortPolicy.display) ++
    match rule.peers with
    | some peers => " " ++ peers.display
    | none => " address set " ++ rule.id.setName ++ ": (not created)\n"

end Rule

end PolicyAcl
