import PolicyAcl.Port
import PolicyAcl.Proofs.Digits
import PolicyAcl.Proofs.Pieces

/-! Transport matches read as predicates on packets. The text of a match is cut at its
conjunctions and comparisons, and what is read so accepts just what the match does. -/
namespace PolicyAcl

/-- A packet as far as transport matches are concerned; its protocol is named in lower
case. -/
structure Packet where
  protocol : String
  destination : UInt16
deriving DecidableEq, Repr

/-- A condition on the protocol, or on the destination port within the protocol. -/
inductive Condition where
  | protocol (name : String)
  | ports (name : String) (first last : Nat)
deriving DecidableEq, Repr

namespace Condition

def Holds : Condition → Packet → Prop
  | .protocol name, packet => packet.protocol = name
  | .ports name first last, packet =>
    packet.protocol = name ∧ first ≤ packet.destination.toNat ∧ packet.destination.toNat ≤ last

instance : (condition : Condition) → (packet : Packet) → Decidable (condition.Holds packet)
  | .protocol _, _ => inferInstanceAs (Decidable (_ = _))
  | .ports _ _ _, _ => inferInstanceAs (Decidable (_ ∧ _))

/-- A conjunction accepts a packet that all its conditions hold of. -/
def Accept (conditions : List Condition) (packet : Packet) : Prop :=
  ∀ condition ∈ conditions, condition.Holds packet

instance (conditions : List Condition) (packet : Packet) : Decidable (Accept conditions packet) :=
  inferInstanceAs (Decidable (∀ condition ∈ conditions, _))

def number? (text : String) : Option Nat := digitsValue? 10 0 text.toList

/-- The protocol that a destination port field belongs to. -/
def field? (text : String) : Option String :=
  match pieces "." text with
  | [name, label] => if label = "dst" then some name else none
  | _ => none

/-- A protocol, a destination port or a range of destination ports. -/
def read? (segment : String) : Option Condition :=
  match pieces "<=" segment, pieces "==" segment with
  | [first, field, last], _ => do return .ports (← field? field) (← number? first) (← number? last)
  | [_], [field, port] => do return .ports (← field? field) (← number? port) (← number? port)
  | [_], [name] => some (.protocol name)
  | _, _ => none

/-- The conditions that a transport fragment is the conjunction of; the empty fragment
has none. -/
def readAll? (text : String) : Option (List Condition) :=
  if text = "" then some [] else (pieces " && " text).mapM read?

end Condition

theorem not_mem_portText {letter : Char} (other : letter.isDigit = false) (port : UInt16) :
    letter ∉ (portText port).toList := by
  intro member
  rw [portText, Nat.toList_repr] at member
  rw [Nat.isDigit_of_mem_toDigits (by decide) (by decide) member] at other
  cases other

theorem Protocol.not_mem_token {letter : Char} (other : letter.isLower = false)
    (protocol : Protocol) : letter ∉ protocol.token.toList := by
  intro member
  have lower : letter.isLower = true := by
    revert member
    cases protocol <;> simp only [token, String.reduceToList, List.mem_cons, List.not_mem_nil,
      or_false] <;> rintro (rfl | rfl | rfl | rfl) <;> rfl
  rw [lower] at other
  cases other

theorem Protocol.token_ne_empty (protocol : Protocol) : protocol.token ≠ "" := by
  cases protocol <;> decide

theorem toNat_between_self {port destination : UInt16} :
    port.toNat ≤ destination.toNat ∧ destination.toNat ≤ port.toNat ↔ destination = port := by
  rw [← UInt16.toNat_inj]
  omega

namespace Condition

theorem number?_portText (port : UInt16) : number? (portText port) = some port.toNat := by
  rw [number?, portText, Nat.toList_repr, digitsValue?_toDigits (by decide) (by decide)]

end Condition

namespace PortMatch

/-- The segments of a match between its conjunctions. -/
def segments : PortMatch → List String
  | .any p => [p.token]
  | .single p port => [p.token, p.token ++ ".dst==" ++ portText port]
  | .range p first last => [p.token, portText first ++ "<=" ++ p.token ++ ".dst<=" ++ portText last]

def conditions : PortMatch → List Condition
  | .any p => [.protocol p.token]
  | .single p port => [.protocol p.token, .ports p.token port.toNat port.toNat]
  | .range p first last => [.protocol p.token, .ports p.token first.toNat last.toNat]

variable (selected : PortMatch)

theorem text_eq : selected.text = " && ".intercalate selected.segments := by
  cases selected <;> simp [text, segments, String.append_assoc]

theorem segments_ne_nil : selected.segments ≠ [] := by
  cases selected <;> simp [segments]

theorem segments_visible : ∀ segment ∈ selected.segments, segment ≠ "" := by
  cases selected <;> simp [segments, Protocol.token_ne_empty]

theorem text_ne_empty : selected.text ≠ "" := by
  rw [text_eq, ne_eq, intercalate_eq_empty (by decide) selected.segments_visible]
  exact selected.segments_ne_nil

theorem space_not_mem_segments : ∀ segment ∈ selected.segments, ' ' ∉ segment.toList := by
  have digits : ∀ port, ' ' ∉ (portText port).toList := not_mem_portText rfl
  have letters : ∀ p : Protocol, ' ' ∉ p.token.toList := Protocol.not_mem_token rfl
  cases selected <;> simp [segments, digits, letters]

theorem pieces_text : pieces " && " selected.text = selected.segments := by
  rw [text_eq]
  refine pieces_intercalate (by decide) selected.segments_ne_nil fun segment listed => ?_
  exact clearOf_of_head_not_mem ' ' rfl (selected.space_not_mem_segments segment listed)

theorem pieces_destination (p : Protocol) : pieces "." (p.token ++ ".dst") = [p.token, "dst"] := by
  have clear : ∀ part ∈ [p.token, "dst"], ClearOf "." part := by
    intro part listed
    refine clearOf_of_head_not_mem '.' rfl ?_
    rcases List.mem_pair.mp listed with rfl | rfl
    · exact p.not_mem_token rfl
    · decide
  have cut := pieces_intercalate (by decide) (by simp) clear
  rwa [String.intercalate_cons_cons, String.intercalate_singleton, String.append_assoc] at cut

theorem field?_destination (p : Protocol) : Condition.field? (p.token ++ ".dst") = some p.token := by
  rw [Condition.field?, pieces_destination]
  exact if_pos rfl

theorem read?_token (p : Protocol) : Condition.read? p.token = some (.protocol p.token) := by
  have unranged : pieces "<=" p.token = [p.token] := pieces_self '<' rfl (p.not_mem_token rfl)
  have unequal : pieces "==" p.token = [p.token] := pieces_self '=' rfl (p.not_mem_token rfl)
  rw [Condition.read?, unranged, unequal]

theorem read?_single (p : Protocol) (port : UInt16) :
    Condition.read? (p.token ++ ".dst==" ++ portText port) =
      some (.ports p.token port.toNat port.toNat) := by
  have digits : '=' ∉ (portText port).toList := not_mem_portText rfl port
  have marks : '<' ∉ (portText port).toList := not_mem_portText rfl port
  have unranged : pieces "<=" (p.token ++ ".dst==" ++ portText port) =
      [p.token ++ ".dst==" ++ portText port] :=
    pieces_self '<' rfl (by simp [p.not_mem_token, marks])
  have equal : pieces "==" (p.token ++ ".dst==" ++ portText port) =
      [p.token ++ ".dst", portText port] := by
    have clear : ∀ part ∈ [p.token ++ ".dst", portText port], ClearOf "==" part := by
      intro part listed
      refine clearOf_of_head_not_mem '=' rfl ?_
      rcases List.mem_pair.mp listed with rfl | rfl
      · simp [p.not_mem_token]
      · exact digits
    rw [← pieces_intercalate (by decide) (by simp) clear]
    simp [String.append_assoc]
  rw [Condition.read?, unranged, equal]
  simp [field?_destination, Condition.number?_portText]

theorem read?_range (p : Protocol) (first last : UInt16) :
    Condition.read? (portText first ++ "<=" ++ p.token ++ ".dst<=" ++ portText last) =
      some (.ports p.token first.toNat last.toNat) := by
  have ranged : pieces "<=" (portText first ++ "<=" ++ p.token ++ ".dst<=" ++ portText last) =
      [portText first, p.token ++ ".dst", portText last] := by
    have clear : ∀ part ∈ [portText first, p.token ++ ".dst", portText last], ClearOf "<=" part := by
      intro part listed
      refine clearOf_of_head_not_mem '<' rfl ?_
      simp only [List.mem_cons, List.not_mem_nil, or_false] at listed
      rcases listed with rfl | rfl | rfl
      · exact not_mem_portText rfl first
      · simp [p.not_mem_token]
      · exact not_mem_portText rfl last
    rw [← pieces_intercalate (by decide) (by simp) clear]
    simp [String.append_assoc]
  rw [Condition.read?, ranged]
  simp [field?_destination, Condition.number?_portText]

/-- The text of a match reads as the conditions it was written for. -/
theorem readAll?_text : Condition.readAll? selected.text = some selected.conditions := by
  rw [Condition.readAll?, if_neg selected.text_ne_empty, pieces_text]
  cases selected <;> simp [segments, conditions, read?_token, read?_single, read?_range]

theorem conditions_accept (packet : Packet) :
    Condition.Accept selected.conditions packet ↔
      ∃ protocol, packet.protocol = protocol.token ∧ selected.Accepts protocol packet.destination := by
  cases selected with
  | any p => simp [Condition.Accept, conditions, Condition.Holds, Accepts]
  | single p port =>
      simp [Condition.Accept, conditions, Condition.Holds, Accepts, toNat_between_self]
  | range p first last =>
      simp [Condition.Accept, conditions, Condition.Holds, Accepts, UInt16.le_iff_toNat_le]

end PortMatch

namespace PortPolicy

variable {policy : PortPolicy} {protocol : Protocol} {selected : PortMatch}

theorem matchText_of_selected (selects : policy.selection? = some selected) :
    policy.matchText = selected.text := by
  rw [matchText, selects, Option.map_some, Option.getD_some]

/-- A port policy with a supported protocol selects something of that protocol. -/
theorem selection?_of_supported (supported : Protocol.ofName? policy.protocol = some protocol) :
    ∃ selected, policy.selection? = some selected ∧
      ∃ more, selected.segments = protocol.token :: more ∧ more.length ≤ 1 := by
  rw [selection?, supported, Option.map_some]
  refine ⟨_, rfl, ?_⟩
  split
  · exact ⟨[], rfl, Nat.zero_le 1⟩
  · split
    · exact ⟨_, rfl, Nat.le_refl 1⟩
    · exact ⟨_, rfl, Nat.le_refl 1⟩

theorem matchText_eq_empty : policy.matchText = "" ↔ Protocol.ofName? policy.protocol = none := by
  cases found : Protocol.ofName? policy.protocol with
  | none => simp [matchText, selection?, found]
  | some protocol =>
      obtain ⟨selected, selects, -⟩ := selection?_of_supported found
      simp [matchText_of_selected selects, selected.text_ne_empty]

end PortPolicy

end PolicyAcl
