/-! The parts of Kubernetes objects that rules and peers are made from, and the
faults of objects that cannot be converted. A field that is absent is `none`. -/
namespace PolicyAcl.Manifest

/-- A port is given by its number or by a name that each pod resolves itself. -/
inductive PortRef where
  | number (port : Int32)
  | name (port : String)
deriving DecidableEq, Repr

structure Port where
  protocol : Option String := none
  port : Option PortRef := none
  endPort : Option Int32 := none
deriving DecidableEq, Repr

structure Block where
  network : String
  excepts : Option (List String) := none
deriving DecidableEq, Repr

/-- An entry of a rule's peer list: a block, selectors, or both. -/
structure Peer where
  block : Option Block := none
  podSelector : Bool := false
  namespaceSelector : Bool := false
deriving DecidableEq, Repr

/-- What ingress and egress rules have in common. -/
structure Rule where
  ports : Option (List Port) := none
  peers : Option (List Peer) := none
deriving DecidableEq, Repr

/-- A rule for the traffic that comes from its peers. -/
structure IngressRule where
  ports : Option (List Port) := none
  sources : Option (List Peer) := none
deriving DecidableEq, Repr

/-- A rule for the traffic that goes to its peers. -/
structure EgressRule where
  ports : Option (List Port) := none
  destinations : Option (List Peer) := none
deriving DecidableEq, Repr

structure PodStatus where
  podIP : Option String := none
  podIPs : Option (List String) := none
deriving DecidableEq, Repr

structure Pod where
  ns : Option String := none
  name : Option String := none
  status : Option PodStatus := none
deriving DecidableEq, Repr

inductive PortField where
  | port
  | endPort
deriving DecidableEq, Repr

def PortField.name : PortField → String
  | .port => "port"
  | .endPort => "endPort"

inductive Fault where
  | outOfRange (field : PortField) (value : Int32)
  | endWithoutPort (last : UInt16)
  | endBelowPort (last first : UInt16)
  | namedPort (protocol port : String)
  | missingNamespace
  | missingName
  | badAddress (text : String)
deriving DecidableEq, Repr

end PolicyAcl.Manifest
