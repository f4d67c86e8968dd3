import PolicyAcl.Proofs.AclMatches

/-! The packet field that an address comparison tests. The match over address sets tests
the field that carries the peer's address in the direction of the rule, while the match
of a block tests the source address in either direction. -/
namespace PolicyAcl

/-- A text cut in two at the first of these letters. -/
def cutAt (letter : Char) (text : String) : String × String :=
  (String.ofList (text.toList.takeWhile (· ≠ letter)),
    String.ofList (text.toList.dropWhile (· ≠ letter)).tail)

theorem cutAt_append {letter : Char} {front gap : String} (absent : letter ∉ front.toList)
    (single : gap.toList = [letter]) (back : String) :
    cutAt letter (front ++ (gap ++ back)) = (front, back) := by
  simp only [cutAt, String.toList_append, takeWhile_ne_append absent, dropWhile_ne_append absent,
    single]
  simp

/-- The comparison of an address field of a packet with an operand. -/
structure AddressTest where
  family : Family
  field : String
  equal : Bool
  operand : String
deriving DecidableEq

namespace AddressTest

def operator (equal : Bool) : String := if equal then "==" else "!="

def write (test : AddressTest) : String :=
  test.family.token ++ "." ++ test.field ++ " " ++ operator test.equal ++ " " ++ test.operand

/-- The family stands before the first dot, then the field and the operator follow, each
before a blank. -/
def read? (text : String) : Option AddressTest := do
  let (token, rest) := cutAt '.' text
  let (field, rest) := cutAt ' ' rest
  let (symbol, operand) := cutAt ' ' rest
  let family ← [Family.v4, Family.v6].find? (·.token = token)
  let equal ← [true, false].find? (operator · = symbol)
  return { family, field, equal, operand }

theorem read?_write (test : AddressTest) (field : ' ' ∉ test.field.toList) :
    read? test.write = some test := by
  obtain ⟨family, name, equal, operand⟩ := test
  have token : '.' ∉ family.token.toList := by cases family <;> decide
  have symbol : ' ' ∉ (operator equal).toList := by cases equal <;> decide
  have whole : write ⟨family, name, equal, operand⟩ =
      family.token ++ ("." ++ (name ++ (" " ++ (operator equal ++ (" " ++ operand))))) := by
    simp only [write, String.append_assoc]
  have dot : ".".toList = ['.'] := by decide
  have blank : " ".toList = [' '] := by decide
  rw [read?, whole]
  simp only [cutAt_append token dot, cutAt_append field blank, cutAt_append symbol blank]
  cases family <;> cases equal <;> rfl

theorem read?_writes {tests : List AddressTest} (fields : ∀ test ∈ tests, ' ' ∉ test.field.toList) :
    (tests.map write).map read? = tests.map some := by
  rw [List.map_map]
  exact List.map_congr_left fun test member => read?_write test (fields test member)

end AddressTest

open AddressTest (read?)

theorem Direction.blank_not_mem_peerField (direction : Direction) :
    ' ' ∉ direction.peerField.toList := by
  cases direction <;> decide

namespace Block

/-- What a block asks of the address in a packet field. -/
def tests (field : String) (block : Block) : List AddressTest :=
  ⟨block.family, field, true, block.network⟩ ::
    if block.excepts = [] then []
    else [⟨block.family, field, false, braced (",".intercalate block.excepts)⟩]

theorem comparisons_eq (block : Block) :
    block.comparisons = (block.tests "src").map AddressTest.write := by
  have field (symbol operand : String) : block.field ++ (" " ++ symbol ++ " ") ++ operand =
      block.family.token ++ "." ++ "src" ++ " " ++ symbol ++ " " ++ operand := by
    simp only [Block.field, String.append_assoc]
    rfl
  have equal := field "==" block.network
  have differs := field "!=" (braced (",".intercalate block.excepts))
  unfold comparisons tests
  split
  · exact congrArg ([·]) equal
  · exact congrArg₂ (fun one other => [one, other]) equal differs

theorem read?_comparisons (block : Block) :
    block.comparisons.map read? = (block.tests "src").map some := by
  rw [comparisons_eq]
  apply AddressTest.read?_writes
  intro test member
  have field : test.field = "src" := by
    unfold tests at member
    split at member <;> simp at member
    · rw [member]
    · rcases member with rfl | rfl <;> rfl
  rw [field]
  decide

theorem tests_inj {field other : String} (block : Block) :
    block.tests field = block.tests other ↔ field = other := by
  constructor
  · intro same
    have heads := congrArg List.head? same
    simpa [tests] using heads
  · rintro rfl
    rfl

end Block

namespace Rule

theorem addressClause_eq (field : String) (bases : List String) (family : Family) :
    addressClause field bases family = AddressTest.write ⟨family, field, true,
      braced (", ".intercalate (bases.map fun base => "$" ++ family.setName base))⟩ := by
  simp only [addressClause, AddressTest.write, String.append_assoc]
  rfl

end Rule

/-- The comparisons of a block test the source address, and so they are those that the
direction of the rule asks for if and only if it is an ingress rule. Every clause of the
match over address sets tests the field of the direction. -/
theorem blocks_test_source_in_both_directions (rule : Rule) (lport : String) :
    (∀ (k : Nat) (entry : String), (rule.aclMatches lport)[k]? = some entry →
      ∃ block transport, rule.blocks[k % rule.blocks.length]? = some block ∧
        rule.transports[k / rule.blocks.length]? = some transport ∧
        entry = " && ".intercalate (block.comparisons ++ [transport, lport].filter (· ≠ "")) ∧
        block.comparisons.map read? = (block.tests "src").map some ∧
        (block.comparisons.map read? = (block.tests rule.id.direction.peerField).map some ↔
          rule.id.direction = .ingress)) ∧
    ∀ text, rule.addressMatch? = some text →
      ∃ clauses, text = "(" ++ " || ".intercalate clauses ++ ")" ∧
        clauses.map read? = rule.families.enabled.map fun family =>
          some ⟨family, rule.id.direction.peerField, true,
            braced (", ".intercalate
              (rule.referenced.toList.map fun base => "$" ++ family.setName base))⟩ := by
  constructor
  · intro k entry found
    rw [Rule.aclMatches_eq, Rule.getElem?_blockMatches, Option.bind_eq_some_iff] at found
    obtain ⟨transport, transportAt, found⟩ := found
    obtain ⟨block, blockAt, rfl⟩ := Option.map_eq_some_iff.mp found
    refine ⟨block, transport, blockAt, transportAt, block.matchWith_eq_intercalate _ _,
      block.read?_comparisons, ?_⟩
    rw [block.read?_comparisons, List.map_inj_right (fun _ _ => Option.some.inj), block.tests_inj]
    cases rule.id.direction <;> decide
  · intro text shown
    unfold Rule.addressMatch? at shown
    split at shown
    next => cases shown
    next =>
      cases shown
      refine ⟨_, rfl, ?_⟩
      rw [List.map_map]
      apply List.map_congr_left
      intro family _
      rw [Function.comp_apply, Rule.addressClause_eq]
      exact AddressTest.read?_write _ (Direction.blank_not_mem_peerField _)

/-- An egress rule with a block and the address set of a namespace. -/
def egressRule : Rule :=
  { id := ⟨.egress, 0, "ns1", "pol1"⟩, families := .ipv4Only
    blocks := [⟨"10.0.0.0/8", ["10.1.0.0/16"]⟩], ports := [⟨"TCP", 443, 0⟩]
    namespaces := (∅ : Std.ExtTreeSet String).insert "ns2" }

theorem blocks_test_source_in_both_directions_egress :
    let entry := "ip4.src == 10.0.0.0/8 && ip4.src != \x7b10.1.0.0/16\x7d && tcp && tcp.dst==443"
    (egressRule.aclMatches "")[0]? = some entry ∧
    egressRule.addressMatch? = some "(ip4.dst == \x7b$ns2_v4\x7d)" ∧
    (∃ block transport, egressRule.blocks[0]? = some block ∧
      egressRule.transports[0]? = some transport ∧
      entry = " && ".intercalate (block.comparisons ++ [transport, ""].filter (· ≠ "")) ∧
      block.comparisons.map read? = (block.tests "src").map some) ∧
    ∃ clauses, "(ip4.dst == \x7b$ns2_v4\x7d)" = "(" ++ " || ".intercalate clauses ++ ")" ∧
      clauses.map read? = [some ⟨.v4, "dst", true, "\x7b$ns2_v4\x7d"⟩] := by
  have found : (egressRule.aclMatches "")[0]? =
      some "ip4.src == 10.0.0.0/8 && ip4.src != \x7b10.1.0.0/16\x7d && tcp && tcp.dst==443" := by
    decide +kernel
  have shown : egressRule.addressMatch? = some "(ip4.dst == \x7b$ns2_v4\x7d)" := by
    decide +kernel
  obtain ⟨entries, addresses⟩ := blocks_test_source_in_both_directions egressRule ""
  obtain ⟨block, transport, blockAt, transportAt, whole, tests, -⟩ := entries 0 _ found
  obtain ⟨clauses, joined, fields⟩ := addresses _ shown
  refine ⟨found, shown, ⟨block, transport, blockAt, transportAt, whole, tests⟩, clauses, joined, ?_⟩
  rw [fields]
  decide +kernel

/-- The block of an egress rule is compared with the address that is not the peer's. -/
theorem egress_block_does_not_test_peer_field :
    egressRule.id.direction.peerField = "dst" ∧
    egressRule.aclMatches "" =
      ["ip4.src == 10.0.0.0/8 && ip4.src != \x7b10.1.0.0/16\x7d && tcp && tcp.dst==443"] ∧
    ¬∀ block ∈ egressRule.blocks, block.comparisons.map read? =
      (block.tests egressRule.id.direction.peerField).map some := by
  decide +kernel

end PolicyAcl
