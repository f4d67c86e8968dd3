import PolicyAcl.Fragment

/-! Port policies and the transport matches they stand for. A match is data
first (`PortMatch`) and text second, so that what it accepts can be said without
its text. -/
namespace PolicyAcl

inductive Protocol where
  | tcp
  | udp
  | sctp
deriving DecidableEq, Repr

namespace Protocol

def token : Protocol → String
  | .tcp => "tcp"
  | .udp => "udp"
  | .sctp => "sctp"

/-- A protocol name is read without regard to ASCII case. -/
def ofName? (name : String) : Option Protocol :=
  let folded := name.toList.map Char.toLower
  [tcp, udp, sctp].find? fun protocol => protocol.token.toList = folded

def unsupportedMessage (name : String) : String := "Unsupported L4 protocol '" ++ name ++ "'"

end Protocol

/-- The traffic that a supported port policy selects. -/
inductive PortMatch where
  | any (protocol : Protocol)
  | single (protocol : Protocol) (port : UInt16)
  | range (protocol : Protocol) (first last : UInt16)
deriving DecidableEq, Repr

/-- A transport match accepts packets by protocol and destination port. -/
def PortMatch.Accepts : PortMatch → Protocol → UInt16 → Prop
  | .any p, protocol, _ => protocol = p
  | .single p port, protocol, destination => protocol = p ∧ destination = port
  | .range p first last, protocol, destination =>
    protocol = p ∧ first ≤ destination ∧ destination ≤ last

def portText (port : UInt16) : String := port.toNat.repr

def PortMatch.text : PortMatch → String
  | .any p => p.token
  | .single p port => p.token ++ " && " ++ p.token ++ ".dst==" ++ portText port
  | .range p first last =>
    p.token ++ " && " ++ portText first ++ "<=" ++ p.token ++ ".dst<=" ++ portText last

/-- One entry of a rule's port list. Port zero means any port, and end zero
means a single port. -/
structure PortPolicy where
  protocol : String
  port : UInt16
  endPort : UInt16
deriving DecidableEq, Repr

namespace PortPolicy

/-- A one-port range is a single port. Nothing is selected by a protocol that is
not supported. -/
def selection? (policy : PortPolicy) : Option PortMatch :=
  (Protocol.ofName? policy.protocol).map fun protocol =>
    if policy.port = 0 then .any protocol
    else if policy.endPort = 0 ∨ policy.endPort = policy.port then .single protocol policy.port
    else .range protocol policy.port policy.endPort

/-- The transport fragment, empty if the protocol is not supported. -/
def matchText (policy : PortPolicy) : String :=
  (policy.selection?.map PortMatch.text).getD ""

/-- The protocol as it was given, with its port or its port range. -/
def display (policy : PortPolicy) : String :=
  if policy.port = 0 then policy.protocol
  else if policy.endPort = 0 then policy.protocol ++ "/" ++ portText policy.port
  else policy.protocol ++ "/[" ++ portText policy.port ++ "-" ++ portText policy.endPort ++ "]"

end PortPolicy

end PolicyAcl
