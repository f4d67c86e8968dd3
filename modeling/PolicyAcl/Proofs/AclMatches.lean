import PolicyAcl.Proofs.Transport
import PolicyAcl.Rule.Basic

/-! The matches of a rule's access-control entries are the product of its transport
fragments and its blocks, and each is cut into the segments it was joined from. -/
namespace PolicyAcl

/-- The networks that a segment lists in braces. -/
def listed (segment : String) : List String :=
  pieces "," (String.ofList (segment.toList.dropWhile (· ≠ '\x7b')).tail.dropLast)

theorem listed_braced {front : String} (plain : '\x7b' ∉ front.toList) {parts : List String}
    (some : parts ≠ []) (clear : ∀ part ∈ parts, ',' ∉ part.toList) :
    listed (front ++ braced (",".intercalate parts)) = parts := by
  have skipped : (front ++ braced (",".intercalate parts)).toList.dropWhile (· ≠ '\x7b') =
      (braced (",".intercalate parts)).toList := by
    rw [String.toList_append, List.dropWhile_append_of_pos]
    · simp [braced]
    · intro letter member
      simpa using fun same : letter = '\x7b' => plain (same ▸ member)
  have body : (braced (",".intercalate parts)).toList.tail.dropLast =
      (",".intercalate parts).toList := by
    simp [braced]
  rw [listed, skipped, body, String.ofList_toList]
  exact pieces_intercalate (by decide) some fun part member =>
    clearOf_of_head_not_mem ',' rfl (clear part member)

namespace Block

variable (block : Block)

theorem field_eq :
    block.field = (if ':' ∈ block.network.toList then "ip6" else "ip4") ++ ".src" := by
  unfold field family Family.ofNetwork
  split <;> rfl

theorem not_mem_field {letter : Char} (absent : letter ∉ "ip46.src".toList) :
    letter ∉ block.field.toList := by
  rw [field_eq]
  split <;> simp at absent ⊢ <;> grind

/-- The segments of a block's match with a transport and a logical-port fragment. -/
def segments (lport transport : String) : List String :=
  let field := (if ':' ∈ block.network.toList then "ip6" else "ip4") ++ ".src"
  [field ++ " == " ++ block.network] ++
    (if block.excepts = [] then []
    else [field ++ " != " ++ ("\x7b" ++ ",".intercalate block.excepts ++ "\x7d")]) ++
    (if transport = "" then [] else pieces " && " transport) ++
    if lport = "" then [] else [lport]

theorem segments_eq (lport transport : String) :
    block.segments lport transport =
      block.comparisons ++ (if transport = "" then [] else pieces " && " transport) ++
        if lport = "" then [] else [lport] := by
  rw [segments, ← field_eq]
  unfold comparisons braced
  split <;> simp

theorem comparisons_visible : ∀ part ∈ block.comparisons, part ≠ "" := by
  unfold comparisons
  split <;> simp

theorem comparisons_plain (network : Plain block.network)
    (excepts : ∀ except ∈ block.excepts, Plain except) :
    ∀ part ∈ block.comparisons, Plain part := by
  have equal : Plain (block.field ++ " == " ++ block.network) := by
    refine plain_append_of_not_mem ?_ network
    simp [block.not_mem_field]
  have braces : Plain (block.field ++ " != " ++ braced (",".intercalate block.excepts)) := by
    refine plain_append_of_not_mem (by simp [block.not_mem_field]) ?_
    rw [braced, String.append_assoc]
    refine plain_append_of_not_mem (by decide) ?_
    rw [Plain, String.toList_append]
    exact plain_around _ '\x7d' (by decide) (plain_intercalate_comma excepts) (by simp)
  unfold comparisons
  split
  · simpa using equal
  · simpa using ⟨equal, braces⟩

variable {block} {lport transport : String}

/-- However a transport fragment is cut, a match joins the comparisons of the block, the parts
of the fragment and the logical-port fragment. -/
theorem matchWith_of_parts {parts : List String} (joined : " && ".intercalate parts = transport)
    (visible : ∀ part ∈ parts, part ≠ "") :
    block.matchWith lport transport =
      " && ".intercalate (block.comparisons ++ parts ++ if lport = "" then [] else [lport]) := by
  have logical : " && ".intercalate (if lport = "" then [] else [lport]) = lport ∧
      ∀ part ∈ if lport = "" then [] else [lport], part ≠ "" := by
    by_cases none : lport = ""
    · simp [none]
    · simp [none]
  have shown : ∀ group ∈ [block.comparisons, parts, if lport = "" then [] else [lport]],
      ∀ part ∈ group, part ≠ "" := by
    simpa only [List.forall_mem_cons, List.not_mem_nil, false_implies, implies_true, and_true] using
      ⟨block.comparisons_visible, visible, logical.2⟩
  have whole := conjoin_intercalate shown
  rw [List.map_cons, List.map_cons, List.map_cons, List.map_nil, joined, logical.1] at whole
  rw [matchWith, matchText, whole]
  simp only [List.flatten_cons, List.flatten_nil, List.append_nil, List.append_assoc]

/-- A block, a transport fragment and a logical-port one are joined into one conjunction. -/
theorem matchWith_eq_intercalate (lport transport : String) (block : Block) :
    block.matchWith lport transport =
      " && ".intercalate (block.comparisons ++ [transport, lport].filter (· ≠ "")) := by
  have joined : " && ".intercalate ([transport].filter (· ≠ "")) = transport := by
    by_cases none : transport = "" <;> simp [none]
  have visible : ∀ part ∈ [transport].filter (· ≠ ""), part ≠ "" := by
    simp
  have logical : [lport].filter (· ≠ "") = if lport = "" then [] else [lport] := by
    by_cases none : lport = "" <;> simp [none]
  rw [matchWith_of_parts joined visible, ← logical, List.append_assoc, ← List.filter_append,
    List.singleton_append]

/-- A match is the conjunction of its segments. -/
theorem matchWith_eq (origin : transport = "" ∨ ∃ selected : PortMatch, transport = selected.text) :
    block.matchWith lport transport = " && ".intercalate (block.segments lport transport) := by
  rw [segments_eq]
  rcases origin with rfl | ⟨selected, rfl⟩
  · exact matchWith_of_parts (by simp) (by simp)
  · rw [if_neg selected.text_ne_empty, selected.pieces_text]
    exact matchWith_of_parts selected.text_eq.symm selected.segments_visible

/-- How an entry for a block and a transport fragment is taken apart. -/
structure Decodes (block : Block) (lport transport entry : String) : Prop where
  segments : pieces " && " entry = block.segments lport transport
  visible : ∀ segment ∈ pieces " && " entry, segment ≠ ""
  excepts : block.excepts ≠ [] → (∀ except ∈ block.excepts, ',' ∉ except.toList) →
    ∃ segment, (pieces " && " entry)[1]? = some segment ∧ listed segment = block.excepts

theorem segments_excepts (inhabited : block.excepts ≠ [])
    (clear : ∀ except ∈ block.excepts, ',' ∉ except.toList) :
    ∃ segment, (block.segments lport transport)[1]? = some segment ∧
      listed segment = block.excepts := by
  refine ⟨block.field ++ " != " ++ braced (",".intercalate block.excepts), ?_, ?_⟩
  · simp [segments_eq, comparisons, inhabited]
  · exact listed_braced (by simp [block.not_mem_field]) inhabited clear

theorem segments_apart (origin : transport = "" ∨ ∃ selected : PortMatch, transport = selected.text)
    (network : Plain block.network) (excepts : ∀ except ∈ block.excepts, Plain except)
    (plain : Plain lport) :
    ∀ segment ∈ block.segments lport transport, segment ≠ "" ∧ ClearOf " && " segment := by
  intro segment member
  rw [segments_eq, List.mem_append, List.mem_append] at member
  rcases member with (compared | carried) | logical
  · exact ⟨block.comparisons_visible segment compared,
      (block.comparisons_plain network excepts segment compared).clearOf⟩
  · rcases origin with rfl | ⟨selected, rfl⟩
    · simp at carried
    · rw [if_neg selected.text_ne_empty, selected.pieces_text] at carried
      exact ⟨selected.segments_visible segment carried,
        clearOf_of_head_not_mem ' ' rfl (selected.space_not_mem_segments segment carried)⟩
  · by_cases none : lport = ""
    · simp [none] at logical
    · obtain rfl : segment = lport := by simpa [none] using logical
      exact ⟨none, plain.clearOf⟩

theorem matchWith_decodes
    (origin : transport = "" ∨ ∃ selected : PortMatch, transport = selected.text)
    (network : Plain block.network) (excepts : ∀ except ∈ block.excepts, Plain except)
    (plain : Plain lport) : block.Decodes lport transport (block.matchWith lport transport) := by
  have apart := segments_apart origin network excepts plain
  have cut : pieces " && " (block.matchWith lport transport) = block.segments lport transport := by
    rw [matchWith_eq origin]
    refine pieces_intercalate (by decide) ?_ fun segment member => (apart segment member).2
    simp [segments]
  constructor
  · exact cut
  · rw [cut]
    exact fun segment member => (apart segment member).1
  · rw [cut]
    exact segments_excepts

end Block

namespace Rule

/-- The transport fragments of a rule: those of its ports with a supported protocol in
their order, or the empty one if it has no port at all. -/
def transports (rule : Rule) : List String :=
  if rule.ports = [] then [""]
  else
    (rule.ports.filter fun port => (Protocol.ofName? port.protocol).isSome).map PortPolicy.matchText

theorem portMatches_eq (rule : Rule) :
    rule.portMatches =
      (rule.ports.filter fun port => (Protocol.ofName? port.protocol).isSome).map
        PortPolicy.matchText := by
  rw [portMatches, List.filter_map]
  congr 1
  refine List.filter_congr fun port _ => ?_
  rw [Bool.eq_iff_iff]
  simp [PortPolicy.matchText_eq_empty, Option.isSome_iff_ne_none]

theorem aclMatches_eq (rule : Rule) (lport : String) :
    rule.aclMatches lport = rule.transports.flatMap (rule.blockMatches lport) := by
  unfold aclMatches transports
  split
  · simp
  · rw [portMatches_eq]

theorem getElem?_blockMatches (rule : Rule) (lport : String) (fragments : List String) (k : Nat) :
    (fragments.flatMap (rule.blockMatches lport))[k]? =
      (fragments[k / rule.blocks.length]?).bind fun transport =>
        (rule.blocks[k % rule.blocks.length]?).map (Block.matchWith lport transport) := by
  have length (transport : String) :
      (rule.blockMatches lport transport).length = rule.blocks.length := by
    simp [blockMatches]
  induction fragments generalizing k with
  | nil => simp
  | cons transport fragments ih =>
      rw [List.flatMap_cons]
      by_cases here : k < rule.blocks.length
      · rw [List.getElem?_append_left (by rw [length]; exact here), Nat.div_eq_of_lt here,
          Nat.mod_eq_of_lt here]
        simp [blockMatches]
      · rw [List.getElem?_append_right (by rw [length]; omega), length, ih]
        rcases Nat.eq_zero_or_pos rule.blocks.length with none | some
        · simp [List.length_eq_zero_iff.mp none]
        · have later : k / rule.blocks.length = (k - rule.blocks.length) / rule.blocks.length + 1 :=
            Nat.div_eq_sub_div some (Nat.le_of_not_lt here)
          rw [later, List.getElem?_cons_succ, ← Nat.mod_eq_sub_mod (Nat.le_of_not_lt here)]

/-- A transport fragment is empty only if the rule has no port at all. -/
theorem mem_transports {rule : Rule} {transport : String} (member : transport ∈ rule.transports) :
    (rule.ports = [] ∧ transport = "") ∨
    ∃ port ∈ rule.ports, ∃ protocol, Protocol.ofName? port.protocol = some protocol ∧
      transport = port.matchText := by
  unfold transports at member
  split at member
  next none => exact .inl ⟨none, List.mem_singleton.mp member⟩
  next =>
    obtain ⟨port, kept, rfl⟩ := List.mem_map.mp member
    obtain ⟨inside, supported⟩ := List.mem_filter.mp kept
    obtain ⟨protocol, supported⟩ := Option.isSome_iff_exists.mp supported
    exact .inr ⟨port, inside, protocol, supported, rfl⟩

end Rule

/-- The entries of a rule are the product of its transport fragments and its blocks. An
entry joins the comparisons of its block, its fragment and the logical port, whatever the
texts are; plain texts are cut back into these segments. Only a rule without any port has
entries without a transport. -/
theorem acl_matches_decode (rule : Rule) (lport : String) :
    (rule.aclMatches lport).length = rule.blocks.length * rule.transports.length ∧
    ∀ k < rule.blocks.length * rule.transports.length, ∃ block transport entry,
      rule.blocks[k % rule.blocks.length]? = some block ∧
      rule.transports[k / rule.blocks.length]? = some transport ∧
      (rule.aclMatches lport)[k]? = some entry ∧
      entry = " && ".intercalate (block.comparisons ++ [transport, lport].filter (· ≠ "")) ∧
      entry = " && ".intercalate (block.segments lport transport) ∧
      (Plain block.network → (∀ except ∈ block.excepts, Plain except) → Plain lport →
        block.Decodes lport transport entry) ∧
      (rule.ports = [] → transport = "") ∧
      (rule.ports ≠ [] → ∃ port ∈ rule.ports, ∃ protocol,
        Protocol.ofName? port.protocol = some protocol ∧ transport = port.matchText ∧
        transport ≠ "" ∧ ∃ more, pieces " && " transport = protocol.token :: more ∧
          more.length ≤ 1) := by
  constructor
  · rw [Rule.aclMatches_eq, List.length_flatMap]
    simp [Rule.blockMatches, Nat.mul_comm]
  intro k below
  have inhabited : 0 < rule.blocks.length := by
    refine Nat.pos_of_ne_zero fun none => ?_
    rw [none, Nat.zero_mul] at below
    exact Nat.not_lt_zero k below
  obtain ⟨block, blockAt⟩ : ∃ block, rule.blocks[k % rule.blocks.length]? = some block :=
    ⟨_, List.getElem?_eq_getElem (Nat.mod_lt k inhabited)⟩
  obtain ⟨transport, transportAt⟩ :
      ∃ transport, rule.transports[k / rule.blocks.length]? = some transport :=
    ⟨_, List.getElem?_eq_getElem (Nat.div_lt_of_lt_mul below)⟩
  have entryAt : (rule.aclMatches lport)[k]? = some (block.matchWith lport transport) := by
    rw [Rule.aclMatches_eq, Rule.getElem?_blockMatches, transportAt, Option.bind_some, blockAt,
      Option.map_some]
  refine ⟨block, transport, block.matchWith lport transport, blockAt, transportAt, entryAt,
    block.matchWith_eq_intercalate lport transport, ?_⟩
  rcases Rule.mem_transports (List.mem_of_getElem? transportAt) with
    ⟨none, rfl⟩ | ⟨port, inside, protocol, supported, rfl⟩
  · exact ⟨Block.matchWith_eq (.inl rfl), Block.matchWith_decodes (.inl rfl), fun _ => rfl,
      fun some => absurd none some⟩
  · obtain ⟨selected, selects, more, segments, single⟩ := PortPolicy.selection?_of_supported supported
    have written := PortPolicy.matchText_of_selected selects
    refine ⟨Block.matchWith_eq (.inr ⟨selected, written⟩),
      Block.matchWith_decodes (.inr ⟨selected, written⟩),
      fun none => absurd inside (by simp [none]),
      fun _ => ⟨port, inside, protocol, supported, rfl, ?_, ?_⟩⟩
    · rw [written]
      exact selected.text_ne_empty
    · rw [written, selected.pieces_text]
      exact ⟨more, segments, single⟩

/-- Two blocks, and three ports of which one has a protocol that is not supported. -/
def webRule : Rule :=
  { id := ⟨.ingress, 0, "ns1", "pol1"⟩, families := .dualStack
    blocks := [⟨"10.0.0.0/8", ["10.1.0.0/16", "10.2.0.0/16"]⟩, ⟨"2001:db8::/32", []⟩]
    ports := [⟨"TCP", 80, 0⟩, ⟨"ICMP", 0, 0⟩, ⟨"udp", 8000, 8010⟩] }

theorem acl_matches_decode_web :
    2 < webRule.blocks.length * webRule.transports.length ∧
    (∃ entry, (webRule.aclMatches "outport == @pg")[2]? = some entry ∧
      pieces " && " entry =
        ["ip4.src == 10.0.0.0/8", "ip4.src != \x7b10.1.0.0/16,10.2.0.0/16\x7d", "udp",
          "8000<=udp.dst<=8010", "outport == @pg"] ∧
      ∃ segment, (pieces " && " entry)[1]? = some segment ∧
        listed segment = ["10.1.0.0/16", "10.2.0.0/16"]) ∧
    ¬Plain "outport == @pg && ip.ttl > 1" ∧
    (webRule.aclMatches "outport == @pg && ip.ttl > 1")[2]? = some (" && ".intercalate
      ["ip4.src == 10.0.0.0/8", "ip4.src != \x7b10.1.0.0/16,10.2.0.0/16\x7d",
        "udp && 8000<=udp.dst<=8010", "outport == @pg && ip.ttl > 1"]) := by
  have below : 2 < webRule.blocks.length * webRule.transports.length := by decide +kernel
  have second : webRule.transports[2 / webRule.blocks.length]? =
      some (PortMatch.range .udp 8000 8010).text := by decide +kernel
  refine ⟨below, ?_, by decide, ?_⟩
  · obtain ⟨block, transport, entry, blockAt, transportAt, entryAt, -, -, decodes, -⟩ :=
      (acl_matches_decode webRule "outport == @pg").2 2 below
    obtain rfl : ⟨"10.0.0.0/8", ["10.1.0.0/16", "10.2.0.0/16"]⟩ = block := Option.some.inj blockAt
    obtain rfl := Option.some.inj (second.symm.trans transportAt)
    have decoded := decodes (by decide) (by decide) (by decide)
    refine ⟨entry, entryAt, ?_, decoded.excepts (by decide) (by decide)⟩
    rw [decoded.segments, Block.segments, PortMatch.pieces_text]
    decide +kernel
  · -- The logical port is joined as it is, although it would be cut in two.
    obtain ⟨block, transport, entry, blockAt, transportAt, entryAt, joined, -⟩ :=
      (acl_matches_decode webRule "outport == @pg && ip.ttl > 1").2 2 below
    obtain rfl : ⟨"10.0.0.0/8", ["10.1.0.0/16", "10.2.0.0/16"]⟩ = block := Option.some.inj blockAt
    obtain rfl := Option.some.inj (second.symm.trans transportAt)
    rw [entryAt, joined]
    decide +kernel

end PolicyAcl
