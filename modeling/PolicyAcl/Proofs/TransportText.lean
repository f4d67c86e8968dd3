import PolicyAcl.Proofs.LetterCase
import PolicyAcl.Proofs.PortConversion

/-! The text of a transport match tells what the match accepts. Two texts are the same if they
are for the same protocol and the same ports, and a policy that ends where it begins counts as
one without an end. -/
namespace PolicyAcl

theorem Protocol.ofName?_iff_spellsWord {name : String} {protocol : Protocol} :
    Protocol.ofName? name = some protocol ↔ SpellsWord name.toList protocol.token.toList := by
  have small : protocol.token.toList.all Char.isLower = true := by cases protocol <;> decide
  rw [ofName?_eq_some, spellsWord_iff small, eq_comm]

theorem Protocol.token_inj {protocol other : Protocol} :
    protocol.token = other.token ↔ protocol = other := by
  cases protocol <;> cases other <;> decide

namespace PortPolicy

variable {policy other : PortPolicy} {protocol : Protocol} {selected : PortMatch}

/-- The last port of a policy. A policy without an end is for one port. -/
def last (policy : PortPolicy) : UInt16 :=
  if policy.endPort = 0 then policy.port else policy.endPort

/-- A policy selects by its protocol and by its first and its last port. -/
theorem selection?_eq (policy : PortPolicy) :
    policy.selection? = (Protocol.ofName? policy.protocol).map fun protocol =>
      if policy.port = 0 then .any protocol
      else if policy.last = policy.port then .single protocol policy.port
      else .range protocol policy.port policy.last := by
  unfold selection? last
  by_cases single : policy.endPort = 0 <;> simp [single]

/-- The conditions that the text of a policy is the conjunction of if its protocol is
supported. -/
def conditions (policy : PortPolicy) (protocol : Protocol) : List Condition :=
  .protocol protocol.token ::
    if policy.port = 0 then []
    else [.ports protocol.token policy.port.toNat policy.last.toNat]

/-- Two policies are for any port, or they have the same first and the same last port. -/
def SamePorts (policy other : PortPolicy) : Prop :=
  (policy.port = 0 ∧ other.port = 0) ∨
    policy.port = other.port ∧ 0 < policy.port ∧ policy.last = other.last

theorem conditions_inj {protocol' : Protocol} :
    policy.conditions protocol = other.conditions protocol' ↔
      protocol = protocol' ∧ policy.SamePorts other := by
  have positive : 0 < policy.port ↔ policy.port ≠ 0 := UInt16.pos_iff_ne_zero
  rw [conditions, conditions, List.cons.injEq, Condition.protocol.injEq, Protocol.token_inj,
    SamePorts, positive]
  refine and_congr_right fun same => ?_
  subst same
  by_cases anyPort : policy.port = 0
  · by_cases anyPort' : other.port = 0
    · simp [anyPort, anyPort']
    · simp [anyPort, anyPort']
  · by_cases anyPort' : other.port = 0
    · simp [anyPort, anyPort']
    · simp [anyPort, anyPort', UInt16.toNat_inj]

theorem SamePorts.selection?_eq (same : policy.SamePorts other)
    (protocols : Protocol.ofName? policy.protocol = Protocol.ofName? other.protocol) :
    policy.selection? = other.selection? := by
  rw [PortPolicy.selection?_eq, PortPolicy.selection?_eq, protocols]
  rcases same with ⟨anyPort, anyPort'⟩ | ⟨port, -, last⟩
  · rw [anyPort, anyPort']
    rfl
  · rw [port, last]

theorem conditions_of_selected (supported : Protocol.ofName? policy.protocol = some protocol)
    (selects : policy.selection? = some selected) :
    selected.conditions = policy.conditions protocol := by
  rw [selection?_eq, supported, Option.map_some, Option.some.injEq] at selects
  subst selects
  unfold conditions
  split
  next => rfl
  next =>
    split
    next single => rw [single, PortMatch.conditions]
    next => rfl

theorem readAll?_matchText (supported : Protocol.ofName? policy.protocol = some protocol) :
    Condition.readAll? policy.matchText = some (policy.conditions protocol) := by
  obtain ⟨selected, selects, -⟩ := selection?_of_supported supported
  rw [matchText_of_selected selects, selected.readAll?_text, conditions_of_selected supported selects]

/-- Texts of supported protocols are read back as what they were written for. -/
theorem matchText_eq_iff {protocol' : Protocol}
    (supported : Protocol.ofName? policy.protocol = some protocol)
    (supported' : Protocol.ofName? other.protocol = some protocol') :
    policy.matchText = other.matchText ↔ protocol = protocol' ∧ policy.SamePorts other := by
  constructor
  · intro same
    have read := readAll?_matchText supported
    rw [same, readAll?_matchText supported', Option.some.injEq] at read
    exact conditions_inj.mp read.symm
  · rintro ⟨rfl, ports⟩
    rw [matchText, matchText, ports.selection?_eq (supported.trans supported'.symm)]

theorem conditions_accept (packet : Packet) :
    Condition.Accept (policy.conditions protocol) packet ↔ packet.protocol = protocol.token ∧
      (policy.port = 0 ∨ policy.port ≤ packet.destination ∧ packet.destination ≤ policy.last) := by
  by_cases anyPort : policy.port = 0
  · simp [conditions, Condition.Accept, Condition.Holds, anyPort]
  · simp [conditions, Condition.Accept, Condition.Holds, anyPort, UInt16.le_iff_toNat_le]

/-- The name of the protocol is none that is supported, in whatever case its letters are. -/
def Unsupported (policy : PortPolicy) : Prop :=
  ∀ protocol : Protocol, ¬SpellsWord policy.protocol.toList protocol.token.toList

theorem unsupported_iff : policy.Unsupported ↔ Protocol.ofName? policy.protocol = none := by
  simp only [Unsupported, ← Protocol.ofName?_iff_spellsWord, Option.eq_none_iff_forall_ne_some]

/-- The text of a policy tells the traffic it is for: the protocol, if it is supported, and the
first and the last port, if it is not for any. Nothing is accepted from a first port that is
behind the last one. -/
theorem transport_text_identifies_traffic (policy other : PortPolicy) :
    (policy.matchText = other.matchText ↔
      (policy.Unsupported ∧ other.Unsupported) ∨
      ∃ protocol : Protocol, SpellsWord policy.protocol.toList protocol.token.toList ∧
        SpellsWord other.protocol.toList protocol.token.toList ∧ policy.SamePorts other) ∧
    (policy.Unsupported ↔ policy.matchText = "") ∧
    ∀ protocol : Protocol, SpellsWord policy.protocol.toList protocol.token.toList →
      ∃ conditions, Condition.readAll? policy.matchText = some conditions ∧
        (∀ packet, Condition.Accept conditions packet ↔ packet.protocol = protocol.token ∧
          (policy.port = 0 ∨
            policy.port ≤ packet.destination ∧ packet.destination ≤ policy.last)) ∧
        (policy.port ≠ 0 → policy.last < policy.port →
          ∀ packet, ¬Condition.Accept conditions packet) := by
  have empty {policy : PortPolicy} : policy.Unsupported ↔ policy.matchText = "" :=
    unsupported_iff.trans matchText_eq_empty.symm
  refine ⟨⟨fun same => ?identify, ?agree⟩, empty, fun protocol spelled => ?accept⟩
  case identify =>
    by_cases unsupported : policy.Unsupported
    · exact .inl ⟨unsupported, empty.mpr (same ▸ empty.mp unsupported)⟩
    · have unsupported' : ¬other.Unsupported := fun none =>
        unsupported (empty.mpr (same ▸ empty.mp none))
      simp only [Unsupported, not_forall, not_not, ← Protocol.ofName?_iff_spellsWord]
        at unsupported unsupported'
      obtain ⟨protocol, supported⟩ := unsupported
      obtain ⟨protocol', supported'⟩ := unsupported'
      obtain ⟨rfl, ports⟩ := (matchText_eq_iff supported supported').mp same
      exact .inr ⟨protocol, Protocol.ofName?_iff_spellsWord.mp supported,
        Protocol.ofName?_iff_spellsWord.mp supported', ports⟩
  case agree =>
    rintro (⟨unsupported, unsupported'⟩ | ⟨protocol, spelled, spelled', ports⟩)
    · exact (empty.mp unsupported).trans (empty.mp unsupported').symm
    · exact (matchText_eq_iff (Protocol.ofName?_iff_spellsWord.mpr spelled)
        (Protocol.ofName?_iff_spellsWord.mpr spelled')).mpr ⟨rfl, ports⟩
  case accept =>
    refine ⟨policy.conditions protocol,
      readAll?_matchText (Protocol.ofName?_iff_spellsWord.mpr spelled), conditions_accept, ?_⟩
    intro given reversed packet accepted
    obtain ⟨-, anyPort | ⟨above, below⟩⟩ := (conditions_accept packet).mp accepted
    · exact given anyPort
    · exact absurd (UInt16.le_trans above below) (UInt16.not_le.mpr reversed)

/-- A range of one port has the text of the port, whatever the case of the protocol; a range in
reverse accepts nothing; and the long s is no letter of a protocol. -/
theorem transport_text_identifies_traffic_folded :
    let single : PortPolicy := ⟨"sCTp", 53, 0⟩
    let range : PortPolicy := ⟨"SCTP", 53, 53⟩
    let reversed : PortPolicy := ⟨"Sctp", 90, 80⟩
    let long : PortPolicy := ⟨"ſctp", 53, 0⟩
    single.matchText = range.matchText ∧ single.matchText ≠ long.matchText ∧
    SpellsWord "Sctp".toList "sctp".toList ∧ reversed.port ≠ 0 ∧ reversed.last < reversed.port ∧
    ∃ conditions, Condition.readAll? reversed.matchText = some conditions ∧
      ∀ packet, ¬Condition.Accept conditions packet := by
  intro single range reversed long
  have spelled : SpellsWord "Sctp".toList "sctp".toList := by decide
  have unsupported : long.Unsupported := by
    intro protocol
    cases protocol <;> decide
  refine ⟨?_, ?_, spelled, by decide, by decide, ?_⟩
  · exact (transport_text_identifies_traffic single range).1.mpr
      (.inr ⟨.sctp, by decide, by decide, .inr (by decide)⟩)
  · intro same
    rcases (transport_text_identifies_traffic single long).1.mp same with
      ⟨none, -⟩ | ⟨protocol, -, spelled', -⟩
    · exact none .sctp (by decide)
    · exact unsupported protocol spelled'
  · obtain ⟨conditions, read, -, nothing⟩ :=
      (transport_text_identifies_traffic reversed single).2.2 .sctp spelled
    exact ⟨conditions, read, nothing (by decide) (by decide)⟩

end PortPolicy

end PolicyAcl
