import PolicyAcl.Manifest.Conversion
import PolicyAcl.Proofs.Transport
import PolicyAcl.Proofs.ManifestFaults

/-! What a converted port of a network policy lets through, read off the text of its
match. The numbers of an entry count as absent if they are zero, whether they are given
or not. -/
namespace PolicyAcl

theorem Protocol.ofName?_eq_some {name : String} {protocol : Protocol} :
    Protocol.ofName? name = some protocol ↔
      protocol.token.toList = name.toList.map Char.toLower := by
  unfold ofName?
  constructor
  · intro found
    simpa using List.find?_some found
  · intro same
    rw [← same]
    cases protocol <;> decide

theorem PortPolicy.accepts_iff {policy : PortPolicy} {protocol other : Protocol}
    {selected : PortMatch} {destination : UInt16}
    (supported : Protocol.ofName? policy.protocol = some protocol)
    (selects : policy.selection? = some selected) :
    selected.Accepts other destination ↔
      other = protocol ∧
        (policy.port = 0 ∨ (policy.endPort = 0 ∧ destination = policy.port) ∨
          policy.endPort ≠ 0 ∧ policy.port ≤ destination ∧ destination ≤ policy.endPort) := by
  rw [selection?, supported, Option.map_some, Option.some.injEq] at selects
  subst selects
  by_cases anyPort : policy.port = 0
  · simp [anyPort, PortMatch.Accepts]
  · rw [if_neg anyPort]
    by_cases single : policy.endPort = 0
    · simp [single, anyPort, PortMatch.Accepts]
    · by_cases same : policy.endPort = policy.port
      · simp [same, anyPort, PortMatch.Accepts, UInt16.le_iff_toNat_le, toNat_between_self]
      · simp [same, single, anyPort, PortMatch.Accepts]

namespace Manifest

theorem portNumber_eq_ok {field : PortField} {value : Int32} {port : UInt16} :
    portNumber field value = .ok port ↔ value.toInt = port.toNat := by
  have small := port.toNat_lt
  unfold portNumber
  split
  next inside =>
    rw [Except.ok.injEq, ← UInt16.toNat_inj, UInt16.toNat_ofNat']
    omega
  next outside =>
    simp only [reduceCtorEq, false_iff]
    omega

namespace Port

theorem number_eq_ok {field : PortField} {value? : Option Int32} {port : UInt16} :
    number field value? = .ok port ↔ (value?.getD 0).toInt = port.toNat := by
  cases value? with
  | none =>
      rw [number, Except.ok.injEq, ← UInt16.toNat_inj]
      change 0 = port.toNat ↔ (0 : Int) = port.toNat
      omega
  | some value => exact portNumber_eq_ok

/-- The number of a port that is given by one. A named port has none, but it is never
converted either. -/
def first? (entry : Port) : Option Int32 :=
  match entry.port with
  | some (.number port) => some port
  | _ => none

theorem ranged_eq_ok {protocol : String} {port endPort : UInt16} {policy : PortPolicy} :
    (if endPort = 0 then pure { protocol, port, endPort }
      else if port = 0 then throw (.endWithoutPort endPort)
      else if endPort < port then throw (.endBelowPort endPort port)
      else pure { protocol, port, endPort } : Except Fault PortPolicy) = .ok policy ↔
    { protocol, port, endPort } = policy ∧ (endPort ≠ 0 → port ≠ 0 ∧ port ≤ endPort) := by
  by_cases single : endPort = 0
  · simp [single, pure, Except.pure]
  · by_cases anyPort : port = 0
    · simp [single, anyPort, throw, throwThe, MonadExceptOf.throw]
    · by_cases below : endPort < port
      · simp [single, anyPort, below, throw, throwThe, MonadExceptOf.throw]
      · simp [single, anyPort, below, pure, Except.pure, UInt16.not_lt.mp below]

theorem first?_eq_some {entry : Port} {port : Int32} :
    entry.first? = some port ↔ entry.port = some (.number port) := by
  obtain ⟨protocol, port?, endPort⟩ := entry
  rcases port? with - | ⟨value | label⟩ <;> simp [first?]

theorem first?_eq_none {entry : Port} (unnamed : ∀ name, entry.port ≠ some (.name name)) :
    entry.first? = none ↔ entry.port = none := by
  obtain ⟨protocol, port, endPort⟩ := entry
  rcases port with - | ⟨value | label⟩
  · simp [first?]
  · simp [first?]
  · exact absurd rfl (unnamed label)

/-- An entry is converted as if its absent numbers were zeros. -/
theorem convert_eq_ok {entry : Port} {policy : PortPolicy} :
    entry.convert = .ok policy ↔
      (∀ name, entry.port ≠ some (.name name)) ∧
      policy.protocol = entry.protocol.getD defaultProtocol ∧
      (entry.first?.getD 0).toInt = policy.port.toNat ∧
      (entry.endPort.getD 0).toInt = policy.endPort.toNat ∧
      (policy.endPort ≠ 0 → policy.port ≠ 0 ∧ policy.port ≤ policy.endPort) := by
  have numbers (value? : Option Int32) :
      (∃ port, number .port value? = .ok port ∧ ∃ endPort, number .endPort entry.endPort = .ok endPort ∧
        { protocol := entry.protocol.getD defaultProtocol, port, endPort } = policy ∧
          (endPort ≠ 0 → port ≠ 0 ∧ port ≤ endPort)) ↔
      policy.protocol = entry.protocol.getD defaultProtocol ∧
      (value?.getD 0).toInt = policy.port.toNat ∧
      (entry.endPort.getD 0).toInt = policy.endPort.toNat ∧
      (policy.endPort ≠ 0 → policy.port ≠ 0 ∧ policy.port ≤ policy.endPort) := by
    simp only [number_eq_ok]
    constructor
    · rintro ⟨port, first, endPort, last, rfl, ranged⟩
      exact ⟨rfl, first, last, ranged⟩
    · rintro ⟨protocol, first, last, ranged⟩
      exact ⟨policy.port, first, policy.endPort, last, by rw [← protocol], ranged⟩
  obtain ⟨protocol, port, endPort⟩ := entry
  rcases port with - | ⟨value | label⟩
  · simp only [convert, bind_eq_ok, ranged_eq_ok]
    exact (numbers none).trans (and_iff_right (by simp)).symm
  · simp only [convert, bind_eq_ok, ranged_eq_ok]
    exact (numbers (some value)).trans (and_iff_right (by simp)).symm
  · simp [convert, bind_eq_ok, throw, throwThe, MonadExceptOf.throw]

/-- The destination ports between a first and a last one, as far as they are given. -/
def Between (first last : Option Int32) (port : UInt16) : Prop :=
  match first, last with
  | none, _ => True
  | some first, none => (port.toNat : Int) = first.toInt
  | some first, some last => first.toInt ≤ port.toNat ∧ (port.toNat : Int) ≤ last.toInt

/-- Whether an entry is about a protocol, whatever the case of the letters it is named
in. -/
def IsFor (entry : Port) (protocol : String) : Prop :=
  protocol.toList = (entry.protocol.getD defaultProtocol).toList.map Char.toLower

/-- The traffic that an entry allows by what is given in it. -/
def Allows (entry : Port) (packet : Packet) : Prop :=
  entry.IsFor packet.protocol ∧ Between entry.first? entry.endPort packet.destination

variable {entry : Port} {policy : PortPolicy} {protocol : Protocol}

/-- A number that is given and is not zero. -/
def nonzero (value? : Option Int32) : Option Int32 := value?.filter (· ≠ 0)

theorem nonzero_cases {value? : Option Int32} {port : UInt16}
    (number : (value?.getD 0).toInt = port.toNat) :
    (port = 0 ∧ nonzero value? = none ∧ (value? = none ∨ value? = some 0)) ∨
    ∃ value, port ≠ 0 ∧ value? = some value ∧ nonzero value? = some value ∧ value ≠ 0 ∧
      value.toInt = port.toNat := by
  have zero : value?.getD 0 = 0 ↔ port = 0 := by
    rw [← Int32.toInt_inj, ← UInt16.toNat_inj, number]
    simp
  cases value? with
  | none => exact .inl ⟨zero.mp rfl, rfl, .inl rfl⟩
  | some value =>
      by_cases blank : value = 0
      · subst blank
        exact .inl ⟨zero.mp rfl, rfl, .inr rfl⟩
      · have kept : nonzero (some value) = some value := by simp [nonzero, blank]
        exact .inr ⟨value, fun none => blank (zero.mpr none), rfl, kept, blank, number⟩

/-- A zero is not told apart from an absent number. -/
theorem between_of_values {first? last? : Option Int32} {first last port : UInt16}
    (starts : (first?.getD 0).toInt = first.toNat) (ends : (last?.getD 0).toInt = last.toNat) :
    Between (nonzero first?) (nonzero last?) port ↔
      first = 0 ∨ (last = 0 ∧ port = first) ∨ last ≠ 0 ∧ first ≤ port ∧ port ≤ last := by
  rcases nonzero_cases starts with ⟨rfl, unset, -⟩ | ⟨lower, bounded, -, kept, -, lowest⟩
  · rw [unset]
    exact iff_of_true trivial (.inl rfl)
  · rcases nonzero_cases ends with ⟨rfl, unset, -⟩ | ⟨upper, capped, -, kept', -, highest⟩
    · rw [kept, unset, Between, lowest, Int.natCast_inj, UInt16.toNat_inj]
      simp [bounded]
    · rw [kept, kept', Between, lowest, highest, UInt16.le_iff_toNat_le, UInt16.le_iff_toNat_le]
      simp [bounded, capped]

/-- What is given is told apart from the rest unless a zero is given for the first port,
or for the last one after a first one. -/
theorem between_given {first? last? : Option Int32} {first last : UInt16}
    (starts : (first?.getD 0).toInt = first.toNat) (ends : (last?.getD 0).toInt = last.toNat)
    (ranged : last ≠ 0 → first ≠ 0) :
    (∀ port, Between (nonzero first?) (nonzero last?) port ↔
        Between first? last? port) ↔
      first? ≠ some 0 ∧ (last? = some 0 → first? = none) := by
  rcases nonzero_cases starts with ⟨rfl, unset, rfl | rfl⟩ | ⟨lower, bounded, rfl, kept, present, lowest⟩
  · exact iff_of_true (fun _ => Iff.rfl) (by simp)
  · -- A first port of zero stands for every port, but allows no other port than itself.
    have absent : last? = none ∨ last? = some 0 := by
      rcases nonzero_cases ends with ⟨-, -, absent⟩ | ⟨_, capped, -⟩
      · exact absent
      · exact absurd rfl (ranged capped)
    refine iff_of_false (fun same => ?_) (by simp)
    have other : Between (some 0) last? 1 := (same 1).mp (by rw [unset]; trivial)
    rcases absent with rfl | rfl <;> simp [Between] at other
  · rcases nonzero_cases ends with ⟨rfl, unset, rfl | rfl⟩ | ⟨upper, capped, rfl, kept', given, -⟩
    · rw [kept, unset]
      exact iff_of_true (fun _ => Iff.rfl) (by simp [present])
    · -- A last port of zero stands for none, but leaves no port to be allowed.
      refine iff_of_false (fun same => ?_) (by simp)
      have alone : Between (some lower) (some 0) first :=
        (same first).mp (by rw [kept, unset]; exact lowest.symm)
      have small : (first.toNat : Int) ≤ 0 := alone.2
      exact bounded (UInt16.toNat_inj.mp (by simpa using small))
    · rw [kept, kept']
      exact iff_of_true (fun _ => Iff.rfl) (by simp [present, given])

theorem between_zero {first? last? : Option Int32} {first last : UInt16}
    (starts : (first?.getD 0).toInt = first.toNat) (ends : (last?.getD 0).toInt = last.toNat) :
    (∀ port, Between (nonzero first?) (nonzero last?) port) ↔ first = 0 := by
  simp only [between_of_values starts ends]
  constructor
  · intro all
    -- Port zero lies in no range but those that begin with it.
    rcases all 0 with none | ⟨-, same⟩ | ⟨-, below, -⟩
    · exact none
    · exact same.symm
    · exact UInt16.le_zero_iff.mp below
  · exact fun none _ => .inl none

theorem isFor_iff (converted : entry.convert = .ok policy)
    (supported : Protocol.ofName? policy.protocol = some protocol) {name : String} :
    entry.IsFor name ↔ name = protocol.token := by
  obtain ⟨-, same, -⟩ := convert_eq_ok.mp converted
  rw [Protocol.ofName?_eq_some, same] at supported
  rw [IsFor, ← supported, String.toList_inj]

theorem conditions_accept (converted : entry.convert = .ok policy)
    (supported : Protocol.ofName? policy.protocol = some protocol) :
    ∃ conditions, Condition.readAll? policy.matchText = some conditions ∧
      ∀ packet, Condition.Accept conditions packet ↔
        entry.IsFor packet.protocol ∧
          Between (nonzero entry.first?) (nonzero entry.endPort) packet.destination := by
  obtain ⟨selected, selects, -⟩ := PortPolicy.selection?_of_supported supported
  obtain ⟨-, -, starts, ends, -⟩ := convert_eq_ok.mp converted
  refine ⟨selected.conditions, ?_, fun packet => ?_⟩
  · rw [PortPolicy.matchText_of_selected selects, selected.readAll?_text]
  · rw [selected.conditions_accept, isFor_iff converted supported, between_of_values starts ends]
    simp only [PortPolicy.accepts_iff supported selects]
    constructor
    · rintro ⟨other, named, rfl, allowed⟩
      exact ⟨named, allowed⟩
    · rintro ⟨named, allowed⟩
      exact ⟨protocol, named, rfl, allowed⟩

/-- An end that has no port, or a higher one, makes for no range. -/
theorem misfit_converts {last : Int32} (given : entry.endPort = some last)
    (misfit : entry.port = none ∨
      ∃ first, entry.port = some (.number first) ∧ last.toInt < first.toInt) :
    (∃ policy, entry.convert = .ok policy) ↔
      last = 0 ∧ ∀ first, entry.port = some (.number first) → first.toInt < 65536 := by
  constructor
  · rintro ⟨policy, converted⟩
    obtain ⟨unnamed, -, starts, ends, ranged⟩ := convert_eq_ok.mp converted
    rw [given, Option.getD_some] at ends
    have blank : policy.endPort = 0 := by
      by_contra some
      obtain ⟨bounded, ordered⟩ := ranged some
      rcases misfit with none | ⟨first, port, below⟩
      · rw [(first?_eq_none unnamed).mpr none] at starts
        exact bounded (UInt16.toNat_inj.mp (by simpa using starts.symm))
      · rw [first?_eq_some.mpr port, Option.getD_some] at starts
        rw [UInt16.le_iff_toNat_le] at ordered
        omega
    refine ⟨Int32.toInt_inj.mp (by rw [ends, blank]; rfl), fun first port => ?_⟩
    rw [first?_eq_some.mpr port, Option.getD_some] at starts
    have small := policy.port.toNat_lt
    omega
  · rintro ⟨rfl, small⟩
    rcases misfit with none | ⟨first, port, below⟩
    · refine ⟨⟨_, 0, 0⟩, convert_eq_ok.mpr ⟨by simp [none], rfl, ?_, ?_, by simp⟩⟩
      · rw [(first?_eq_none (by simp [none])).mpr none]
        rfl
      · rw [given]
        rfl
    · have positive : 0 < first.toInt := below
      refine ⟨⟨_, UInt16.ofNat first.toInt.toNat, 0⟩,
        convert_eq_ok.mpr ⟨by simp [port], rfl, ?_, ?_, by simp⟩⟩
      · rw [first?_eq_some.mpr port, Option.getD_some, UInt16.toNat_ofNat']
        have bound := small first port
        omega
      · rw [given]
        rfl

/-- The text of a converted port accepts what the entry allows if its zeros are left
out. That is what the entry allows as it is given unless a port of zero is given, or an
end of zero after a port; and an end that does not fit its port is converted only if it
is zero. -/
theorem converted_port_accepts (entry : Port) :
    (∀ policy protocol, entry.convert = .ok policy →
      Protocol.ofName? policy.protocol = some protocol →
      ∃ conditions, Condition.readAll? policy.matchText = some conditions ∧
        (∀ packet, Condition.Accept conditions packet ↔
          entry.IsFor packet.protocol ∧
            Between (nonzero entry.first?) (nonzero entry.endPort) packet.destination) ∧
        ((∀ packet, Condition.Accept conditions packet ↔ entry.Allows packet) ↔
          entry.port ≠ some (.number 0) ∧ (entry.endPort = some 0 → entry.port = none)) ∧
        ∀ first, entry.port = some (.number first) →
          ((∀ destination, Condition.Accept conditions ⟨protocol.token, destination⟩) ↔ first = 0)) ∧
    ∀ last, entry.endPort = some last →
      (entry.port = none ∨
        ∃ first, entry.port = some (.number first) ∧ last.toInt < first.toInt) →
      ((∃ policy, entry.convert = .ok policy) ↔
        last = 0 ∧ ∀ first, entry.port = some (.number first) → first.toInt < 65536) := by
  constructor
  · intro policy protocol converted supported
    obtain ⟨unnamed, -, starts, ends, ranged⟩ := convert_eq_ok.mp converted
    obtain ⟨conditions, read, accept⟩ := conditions_accept converted supported
    have named : entry.IsFor protocol.token := (isFor_iff converted supported).mpr rfl
    refine ⟨conditions, read, accept, ?_, ?_⟩
    · rw [ne_eq, ← first?_eq_some, ← first?_eq_none unnamed,
        ← between_given starts ends fun some => (ranged some).1]
      constructor
      · intro same port
        have given := same ⟨protocol.token, port⟩
        rw [accept, Allows, and_iff_right named, and_iff_right named] at given
        exact given
      · intro same packet
        rw [accept, Allows, same]
    · intro first given
      have value : first.toInt = policy.port.toNat := by
        rwa [first?_eq_some.mpr given, Option.getD_some] at starts
      simp only [accept, and_iff_right named, between_zero starts ends]
      rw [← Int32.toInt_inj, ← UInt16.toNat_inj, value]
      simp
  · exact fun last given misfit => misfit_converts given misfit

theorem converted_port_accepts_range :
    let entry : Port :=
      { protocol := some "udp", port := some (.number 8000), endPort := some 8010 }
    let reversed : Port := { port := some (.number 310), endPort := some 300 }
    entry.convert = .ok ⟨"udp", 8000, 8010⟩ ∧
    (∃ conditions,
      Condition.readAll? (⟨"udp", 8000, 8010⟩ : PortPolicy).matchText = some conditions ∧
      ∀ packet, Condition.Accept conditions packet ↔ entry.Allows packet) ∧
    ¬∃ policy, reversed.convert = .ok policy := by
  intro entry reversed
  have converted : entry.convert = .ok ⟨"udp", 8000, 8010⟩ := by decide +kernel
  obtain ⟨conditions, read, -, given, -⟩ :=
    (converted_port_accepts entry).1 _ .udp converted (by decide +kernel)
  have misfit := (converted_port_accepts reversed).2 300 rfl (.inr ⟨310, rfl, by decide⟩)
  refine ⟨converted, ⟨conditions, read, given.mpr (by decide)⟩, fun accepted => ?_⟩
  exact absurd (misfit.mp accepted).1 (by decide)

/-- An end without a port is converted if it is zero, and so is an end lower than its
port; a port of zero lets through what is not for it. -/
theorem zero_counts_as_absent :
    ({ endPort := some 0 } : Port).convert = .ok ⟨"TCP", 0, 0⟩ ∧
    ({ port := some (.number 80), endPort := some 0 } : Port).convert = .ok ⟨"TCP", 80, 0⟩ ∧
    ({ port := some (.number 0) } : Port).convert = .ok ⟨"TCP", 0, 0⟩ ∧
    (∃ conditions,
      Condition.readAll? (⟨"TCP", 0, 0⟩ : PortPolicy).matchText = some conditions ∧
      Condition.Accept conditions ⟨"tcp", 443⟩) ∧
    ¬({ port := some (.number 0) } : Port).Allows ⟨"tcp", 443⟩ := by
  have selected : (⟨"TCP", 0, 0⟩ : PortPolicy).matchText = (PortMatch.any .tcp).text := by
    decide +kernel
  refine ⟨by decide +kernel, by decide +kernel, by decide +kernel, ?_, ?_⟩
  · refine ⟨_, by rw [selected, PortMatch.readAll?_text], ?_⟩
    decide
  · rintro ⟨-, between⟩
    simp [Between, first?] at between

end Port

end Manifest

end PolicyAcl
