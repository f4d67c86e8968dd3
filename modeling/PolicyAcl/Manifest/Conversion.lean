import PolicyAcl.Manifest.Basic
import PolicyAcl.Rule.Basic

/-! Conversion of Kubernetes objects. Port lists and network blocks of a rule are
converted; selectors are evaluated elsewhere, and the pods they select arrive one
by one. The first fault met is the one reported. -/
namespace PolicyAcl.Manifest

inductive Fault.Kind where
  | invalid
  | missingData
  | parseError
  | unsupported
deriving DecidableEq, Repr

namespace Fault

def kind : Fault → Kind
  | .outOfRange _ _ => .invalid
  | .endWithoutPort _ => .invalid
  | .endBelowPort _ _ => .invalid
  | .namedPort _ _ => .unsupported
  | .missingNamespace => .missingData
  | .missingName => .missingData
  | .badAddress _ => .parseError

def Kind.heading : Kind → String
  | .invalid => "Invalid k8s object: "
  | .missingData => "Missing required data: "
  | .parseError => "Could not parse value: "
  | .unsupported => "Unsupported k8s object: "

def detail : Fault → String
  | .outOfRange field value => field.name ++ " " ++ value.toInt.repr ++ " is out of range"
  | .endWithoutPort last => "endPort " ++ portText last ++ " requires a numeric port"
  | .endBelowPort last first =>
    "endPort " ++ portText last ++ " is lower than port " ++ portText first
  | .namedPort protocol port => "named " ++ protocol ++ " port '" ++ port ++ "'"
  | .missingNamespace => "pod namespace"
  | .missingName => "pod name"
  | .badAddress text => "pod IP '" ++ text ++ "': " ++ Address.syntaxMessage

def message (fault : Fault) : String := fault.kind.heading ++ fault.detail

end Fault

/-- A number that is a port, zero included. -/
def portNumber (field : PortField) (value : Int32) : Except Fault UInt16 :=
  if 0 ≤ value.toInt ∧ value.toInt < 65536 then .ok (UInt16.ofNat value.toInt.toNat)
  else .error (.outOfRange field value)

namespace Port

def defaultProtocol : String := "TCP"

/-- An absent number is zero, which stands for an unspecified port. -/
def number (field : PortField) : Option Int32 → Except Fault UInt16
  | none => .ok 0
  | some value => portNumber field value

/-- A named port is refused before the end of the range is looked at. -/
def convert (entry : Port) : Except Fault PortPolicy := do
  let protocol := entry.protocol.getD defaultProtocol
  let port ← match entry.port with
    | none => pure 0
    | some (.number value) => portNumber .port value
    | some (.name name) => throw (.namedPort protocol name)
  let endPort ← number .endPort entry.endPort
  if endPort = 0 then return { protocol, port, endPort }
  else if port = 0 then throw (.endWithoutPort endPort)
  else if endPort < port then throw (.endBelowPort endPort port)
  else return { protocol, port, endPort }

end Port

def Block.convert (block : Block) : PolicyAcl.Block :=
  { network := block.network, excepts := block.excepts.getD [] }

/-- Convert a port list, up to the first entry that cannot be converted. -/
def convertPorts : List Port → Except Fault (List PortPolicy)
  | [] => .ok []
  | entry :: entries => do return (← entry.convert) :: (← convertPorts entries)

/-- The blocks among the peers; a peer without one contributes none. -/
def convertPeers (peers : List Peer) : List PolicyAcl.Block :=
  peers.filterMap fun peer => peer.block.map Block.convert

/-- Ports are converted before peers, so a fault is always one of a port. -/
def Rule.convert (rule : Rule) (id : RuleId) (families : Families) :
    Except Fault PolicyAcl.Rule := do
  let ports ← convertPorts (rule.ports.getD [])
  return { id, families, ports, blocks := convertPeers (rule.peers.getD []) }

/-- The ingress rule at an index of a policy. -/
def IngressRule.convert (rule : IngressRule) (index : UInt64) (ns policy : String)
    (families : Families) : Except Fault PolicyAcl.Rule :=
  Rule.convert ⟨rule.ports, rule.sources⟩ ⟨.ingress, index, ns, policy⟩ families

/-- The egress rule at an index of a policy. -/
def EgressRule.convert (rule : EgressRule) (index : UInt64) (ns policy : String)
    (families : Families) : Except Fault PolicyAcl.Rule :=
  Rule.convert ⟨rule.ports, rule.destinations⟩ ⟨.egress, index, ns, policy⟩ families

/-- The addresses that texts spell, or the first text that spells none. -/
def convertAddresses : List String → Except Fault (List Address)
  | [] => .ok []
  | text :: texts =>
    match Address.ofText? text with
    | some address => do return address :: (← convertAddresses texts)
    | none => .error (.badAddress text)

/-- The address texts of a pod: the list if it has entries, otherwise the single
one if there is any. -/
def PodStatus.addressTexts (status : PodStatus) : List String :=
  match status.podIPs with
  | some (text :: texts) => text :: texts
  | _ => status.podIP.toList

/-- A pod without addresses converts to a peer without addresses. -/
def Pod.convert (pod : Pod) : Except Fault PolicyAcl.Pod := do
  let ns ← match pod.ns with
    | some ns => pure ns
    | none => throw .missingNamespace
  let name ← match pod.name with
    | some name => pure name
    | none => throw .missingName
  let texts := match pod.status with
    | some status => status.addressTexts
    | none => []
  return PolicyAcl.Pod.ofAddresses ⟨ns, name⟩ (← convertAddresses texts)

end PolicyAcl.Manifest
