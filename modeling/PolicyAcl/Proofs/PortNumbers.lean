import PolicyAcl.Proofs.TransportText

/-! The policies that the ports of network policies are converted to: those that have no end,
or a range that is not empty. A number that is no port is refused, and never cut down to one. -/
namespace PolicyAcl

/-- A policy has no end, or it has a port and ends at that port or behind it. -/
def PortPolicy.Ordered (policy : PortPolicy) : Prop :=
  policy.endPort.toNat = 0 ∨
    1 ≤ policy.port.toNat ∧ policy.port.toNat ≤ policy.endPort.toNat ∧
      policy.endPort.toNat ≤ 65535

theorem PortPolicy.ordered_iff {policy : PortPolicy} :
    policy.Ordered ↔ (policy.endPort ≠ 0 → policy.port ≠ 0 ∧ policy.port ≤ policy.endPort) := by
  have small := policy.endPort.toNat_lt
  rw [Ordered, UInt16.le_iff_toNat_le, ne_eq, ne_eq, ← UInt16.toNat_inj, ← UInt16.toNat_inj,
    UInt16.toNat_zero]
  omega

/-- The range of an ordered policy has its first and its last port in it. -/
theorem PortPolicy.Ordered.accept_ends {policy : PortPolicy} (ordered : policy.Ordered)
    (protocol : Protocol) :
    Condition.Accept (policy.conditions protocol) ⟨protocol.token, policy.port⟩ ∧
      Condition.Accept (policy.conditions protocol) ⟨protocol.token, policy.last⟩ := by
  have upward : policy.port ≤ policy.last := by
    unfold last
    split
    next => exact UInt16.le_refl policy.port
    next ends => exact (ordered_iff.mp ordered ends).2
  constructor
  · exact (conditions_accept _).mpr ⟨rfl, .inr ⟨UInt16.le_refl _, upward⟩⟩
  · exact (conditions_accept _).mpr ⟨rfl, .inr ⟨upward, UInt16.le_refl _⟩⟩

namespace Manifest

/-- A number that is no port. -/
def OutOfRange (value : Int32) : Prop := value.toInt < 0 ∨ 65535 < value.toInt

theorem portNumber_of_outOfRange {value : Int32} (outside : OutOfRange value) (field : PortField) :
    portNumber field value = .error (.outOfRange field value) := by
  rw [portNumber, if_neg]
  rcases outside with below | above <;> omega

theorem exists_portNumber {value : Int32} (inside : ¬OutOfRange value) (field : PortField) :
    ∃ port, portNumber field value = .ok port := by
  rw [OutOfRange] at inside
  exact ⟨_, by rw [portNumber, if_pos (by omega)]⟩

namespace Port

/-- The number that is given in a field. -/
def given (entry : Port) : PortField → Option Int32
  | .port => entry.first?
  | .endPort => entry.endPort

/-- A field has a number that is no port, and the field before it has none such. -/
def FirstOutOfRange (entry : Port) (field : PortField) (value : Int32) : Prop :=
  entry.given field = some value ∧ OutOfRange value ∧
    (field = .endPort → ∀ first, entry.given .port = some first → ¬OutOfRange first)

theorem exists_firstOutOfRange {entry : Port} {field : PortField} {value : Int32}
    (given : entry.given field = some value) (outside : OutOfRange value) :
    ∃ field value, entry.FirstOutOfRange field value := by
  by_cases earlier : ∃ first, entry.given .port = some first ∧ OutOfRange first
  · obtain ⟨first, given, outside⟩ := earlier
    exact ⟨.port, first, given, outside, fun last => by cases last⟩
  · refine ⟨field, value, given, outside, fun _ first given outside => ?_⟩
    exact earlier ⟨first, given, outside⟩

theorem FirstOutOfRange.convert {entry : Port} {field : PortField} {value : Int32}
    (first : entry.FirstOutOfRange field value)
    (unnamed : ∀ name, entry.port ≠ some (.name name)) :
    entry.convert = .error (.outOfRange field value) := by
  obtain ⟨given, outside, earlier⟩ := first
  obtain ⟨protocol, port, endPort⟩ := entry
  cases field with
  | port =>
      obtain rfl : port = some (.number value) := first?_eq_some.mp given
      simp only [Port.convert, portNumber_of_outOfRange outside]
      rfl
  | endPort =>
      obtain rfl : endPort = some value := given
      have refused : number .endPort (some value) = .error (.outOfRange .endPort value) :=
        portNumber_of_outOfRange outside .endPort
      rcases port with - | ⟨number | label⟩
      · rw [Port.convert, refused]
        rfl
      · obtain ⟨read, converted⟩ := exists_portNumber (earlier rfl number rfl) .port
        simp only [Port.convert, converted, refused]
        rfl
      · exact absurd rfl (unnamed label)

/-- A number is given unless it is zero. -/
def writeNumber (port : UInt16) : Option Int32 :=
  if port = 0 then none else some (Int32.ofNat port.toNat)

/-- The entry that a policy is written as. -/
def ofPolicy (policy : PortPolicy) : Port :=
  { protocol := some policy.protocol
    port := (writeNumber policy.port).map .number
    endPort := writeNumber policy.endPort }

theorem toInt_writeNumber (port : UInt16) :
    ((writeNumber port).getD 0).toInt = port.toNat := by
  have small := port.toNat_lt
  unfold writeNumber
  split
  next none =>
    rw [none]
    rfl
  next => exact Int32.toInt_ofNat_of_lt (by omega)

theorem first?_ofPolicy (policy : PortPolicy) :
    (ofPolicy policy).first? = writeNumber policy.port := by
  rw [first?, ofPolicy]
  cases writeNumber policy.port <;> rfl

theorem convert_ofPolicy {policy : PortPolicy} (ordered : policy.Ordered) :
    (ofPolicy policy).convert = .ok policy := by
  refine convert_eq_ok.mpr ⟨fun name => ?_, rfl, ?_, ?_, PortPolicy.ordered_iff.mp ordered⟩
  · rw [ofPolicy]
    cases writeNumber policy.port <;> simp
  · rw [first?_ofPolicy, toInt_writeNumber]
  · exact toInt_writeNumber policy.endPort

/-- An entry is converted to an ordered policy with the numbers that it gives, and every ordered
policy is what the entry that it is written as is converted to. A named port is refused for its
name, whatever else is given; a number that is no port is refused in any other entry, and the
first such number is reported. -/
theorem ports_convert_to_the_ordered_policies :
    (∀ (entry : Port) (policy : PortPolicy), entry.convert = .ok policy →
      policy.Ordered ∧ policy.protocol = entry.protocol.getD defaultProtocol ∧
      (entry.first?.getD 0).toInt = policy.port.toNat ∧
      (entry.endPort.getD 0).toInt = policy.endPort.toNat ∧
      ∀ protocol, Protocol.ofName? policy.protocol = some protocol →
        ∃ conditions, Condition.readAll? policy.matchText = some conditions ∧
          Condition.Accept conditions ⟨protocol.token, policy.port⟩ ∧
          Condition.Accept conditions ⟨protocol.token, policy.last⟩) ∧
    (∀ policy : PortPolicy, policy.Ordered → (ofPolicy policy).convert = .ok policy) ∧
    (∀ (protocol : Option String) (name : String) (endPort : Option Int32),
      Reports (Port.convert ⟨protocol, some (.name name), endPort⟩) .unsupported
        ("named " ++ protocol.getD defaultProtocol ++ " port '" ++ name ++ "'")) ∧
    ∀ entry : Port, (∀ name, entry.port ≠ some (.name name)) →
      ∀ field value, entry.given field = some value → OutOfRange value →
        ∃ field value, entry.FirstOutOfRange field value ∧
          Reports entry.convert .invalid
            (field.name ++ " " ++ value.toInt.repr ++ " is out of range") := by
  refine ⟨fun entry policy converted => ?converted, fun policy => convert_ofPolicy,
    fun protocol name endPort => ⟨.namedPort _ _, rfl, rfl, rfl⟩,
    fun entry unnamed field value given outside => ?outside⟩
  case converted =>
    obtain ⟨-, named, starts, ends, ranged⟩ := convert_eq_ok.mp converted
    have ordered : policy.Ordered := PortPolicy.ordered_iff.mpr ranged
    refine ⟨ordered, named, starts, ends, fun protocol supported => ?_⟩
    exact ⟨_, PortPolicy.readAll?_matchText supported, ordered.accept_ends protocol⟩
  case outside =>
    obtain ⟨field, value, first⟩ := exists_firstOutOfRange given outside
    exact ⟨field, value, first, _, first.convert unnamed, rfl, rfl⟩

/-- A range of one port is written with its end. A number that is a port but for its upper bits
is refused, and not looked at behind a name. -/
theorem ports_convert_to_the_ordered_policies_bounds :
    let last : PortPolicy := ⟨"SCTP", 65535, 65535⟩
    let wrapped : Port := { port := some (.number 80), endPort := some 65616 }
    let named : Port := { port := some (.name "http"), endPort := some (-1) }
    last.Ordered ∧
    (⟨some "SCTP", some (.number 65535), some 65535⟩ : Port).convert = .ok last ∧
    (∃ conditions, Condition.readAll? last.matchText = some conditions ∧
      Condition.Accept conditions ⟨"sctp", 65535⟩) ∧
    Reports named.convert .unsupported "named TCP port 'http'" ∧
    wrapped.given .endPort = some 65616 ∧ OutOfRange 65616 ∧
    Reports wrapped.convert .invalid "endPort 65616 is out of range" := by
  intro last wrapped named
  obtain ⟨converts, written, names, outside⟩ := ports_convert_to_the_ordered_policies
  have ordered : last.Ordered := .inr (by decide)
  have converted : (⟨some "SCTP", some (.number 65535), some 65535⟩ : Port).convert = .ok last :=
    written last ordered
  obtain ⟨-, -, -, -, accepted⟩ := converts _ _ converted
  obtain ⟨conditions, read, first, -⟩ := accepted .sctp (by decide +kernel)
  have above : OutOfRange 65616 := .inr (by decide)
  refine ⟨ordered, converted, ⟨conditions, read, first⟩, names none "http" (some (-1)), rfl, above,
    ?_⟩
  obtain ⟨field, value, ⟨given, wrong, -⟩, reported⟩ :=
    outside wrapped (by simp [wrapped]) .endPort 65616 rfl above
  cases field with
  | port =>
      obtain rfl : 80 = value := Option.some.inj given
      exact absurd wrong (by unfold OutOfRange; decide)
  | endPort =>
      obtain rfl : 65616 = value := Option.some.inj given
      exact reported

end Port

end Manifest

end PolicyAcl
