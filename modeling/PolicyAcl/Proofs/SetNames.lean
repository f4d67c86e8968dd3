import PolicyAcl.Proofs.PacketFields
import PolicyAcl.Proofs.Store

/-! The name of a rule's address set tells the rule. The parts of a name are joined with
dots, which the name of a policy may hold too: the namespace is read up to the first dot,
and the index and the direction are read from the end. -/
namespace PolicyAcl

/-- A text cut in two at the last of these letters. -/
def cutAtLast (letter : Char) (text : String) : String × String :=
  (String.ofList (text.toList.reverse.dropWhile (· ≠ letter)).tail.reverse,
    String.ofList (text.toList.reverse.takeWhile (· ≠ letter)).reverse)

theorem cutAtLast_append {letter : Char} {gap back : String} (absent : letter ∉ back.toList)
    (single : gap.toList = [letter]) (front : String) :
    cutAtLast letter (front ++ gap ++ back) = (front, back) := by
  have clear : letter ∉ back.toList.reverse := by rwa [List.mem_reverse]
  simp only [cutAtLast, String.toList_append, List.reverse_append, single,
    takeWhile_ne_append clear, dropWhile_ne_append clear]
  simp

namespace RuleId

theorem dot_not_mem_index (index : UInt64) : '.' ∉ index.toNat.repr.toList := by
  rw [Nat.toList_repr]
  exact not_mem_toDigits (by decide) (by decide) (by decide) index.toNat

theorem dot_not_mem_direction (direction : Direction) : '.' ∉ direction.name.toList := by
  cases direction <;> decide

/-- The rule that a set name is the name of, if the namespace of the rule has no dot. -/
def ofSetName? (name : String) : Option RuleId := do
  let (ns, rest) := cutAt '.' name
  let (rest, index) := cutAtLast '.' rest
  let (policy, direction) := cutAtLast '.' rest
  let direction ← [Direction.ingress, Direction.egress].find? (·.name = direction)
  let index ← digitsValue? 10 0 index.toList
  return { direction, index := UInt64.ofNat index, ns, policy }

theorem ofSetName?_setName {id : RuleId} (undotted : '.' ∉ id.ns.toList) :
    ofSetName? id.setName = some id := by
  obtain ⟨direction, index, ns, policy⟩ := id
  have dot : ".".toList = ['.'] := by decide
  have whole : setName ⟨direction, index, ns, policy⟩ =
      ns ++ ("." ++ (policy ++ "." ++ direction.name ++ "." ++ index.toNat.repr)) := by
    simp only [setName, String.append_assoc]
  have digits : digitsValue? 10 0 index.toNat.repr.toList = some index.toNat := by
    rw [Nat.toList_repr, digitsValue?_toDigits (by decide) (by decide)]
  rw [ofSetName?, whole]
  simp only [cutAt_append undotted dot, cutAtLast_append (dot_not_mem_index index) dot,
    cutAtLast_append (dot_not_mem_direction direction) dot, digits]
  cases direction <;> simp [Direction.name]

/-- Rules are told apart by the names of their address sets, and the halves of the sets by
their names as well. -/
theorem set_names_identify_rules {id other : RuleId} (undotted : '.' ∉ id.ns.toList)
    (undotted' : '.' ∉ other.ns.toList) :
    (id.setName = other.setName ↔ id = other) ∧
    ∀ family family' : Family,
      family.setName id.setName = family'.setName other.setName ↔ (id, family) = (other, family') := by
  have names : id.setName = other.setName ↔ id = other := by
    constructor
    · intro same
      have read := ofSetName?_setName undotted
      rw [same, ofSetName?_setName undotted', Option.some.injEq] at read
      exact read.symm
    · exact congrArg setName
  refine ⟨names, fun family family' => ?_⟩
  rw [Family.setName_inj, names, Prod.mk.injEq, and_comm]

/-- A policy may be named like the end of another rule's set name. -/
theorem set_names_identify_rules_dotted_policy :
    '.' ∉ "ns1".toList ∧
    setName ⟨.ingress, 1, "ns1", "web"⟩ ≠ setName ⟨.ingress, 1, "ns1", "web.ingress.1"⟩ ∧
    Family.v4.setName (setName ⟨.egress, 10, "ns1", "web.egress"⟩) ≠
      Family.v6.setName (setName ⟨.egress, 10, "ns1", "web.egress"⟩) := by
  have undotted : '.' ∉ "ns1".toList := by decide
  refine ⟨undotted, ?_, ?_⟩
  · rw [ne_eq, (set_names_identify_rules undotted undotted).1]
    decide
  · rw [ne_eq, (set_names_identify_rules undotted undotted).2]
    decide

/-- With dots in the namespaces, two rules may have one name. -/
example : setName ⟨.ingress, 0, "a.b", "c"⟩ = setName ⟨.ingress, 0, "a", "b.c"⟩ := by decide

end RuleId

end PolicyAcl
