import PolicyAcl.Proofs.AddressText
import PolicyAcl.Proofs.Bookkeeping
import PolicyAcl.Proofs.PacketFields

/-! The texts of peer sets and rules, line by line. The owners of an address stand in one column,
and a peer set is got back from its text if its names have no letter in them that the text is
cut at. -/
namespace PolicyAcl

/-- Lines, each with the break that ends it. -/
def unlines (lines : List String) : String := String.join (lines.map (· ++ "\n"))

@[simp] theorem unlines_nil : unlines [] = "" := rfl

@[simp] theorem unlines_cons (line : String) (lines : List String) :
    unlines (line :: lines) = line ++ "\n" ++ unlines lines := by
  simp [unlines]

theorem unlines_append (lines others : List String) :
    unlines (lines ++ others) = unlines lines ++ unlines others := by
  simp [unlines]

theorem unlines_eq_intercalate (lines : List String) :
    unlines lines = "\n".intercalate (lines ++ [""]) := by
  induction lines with
  | nil => rfl
  | cons line lines ih =>
      rw [List.cons_append, String.intercalate_cons_of_ne_nil (by simp), ← ih]
      simp [unlines]

/-- Lines without breaks in them are got back, and nothing follows the last of them. -/
theorem pieces_unlines {lines : List String} (unbroken : ∀ line ∈ lines, '\n' ∉ line.toList) :
    pieces "\n" (unlines lines) = lines ++ [""] := by
  rw [unlines_eq_intercalate]
  refine pieces_intercalate (by decide) (by simp) fun line member => ?_
  refine clearOf_of_head_not_mem '\n' rfl ?_
  rcases List.mem_append.mp member with listed | last
  · exact unbroken line listed
  · obtain rfl := List.mem_singleton.mp last
    decide

theorem not_mem_intercalate {letter : Char} {separator : String} {parts : List String}
    (apart : letter ∉ separator.toList) (absent : ∀ part ∈ parts, letter ∉ part.toList) :
    letter ∉ (separator.intercalate parts).toList := by
  induction parts with
  | nil => simp
  | cons part parts ih =>
      obtain ⟨first, rest⟩ := List.forall_mem_cons.mp absent
      cases parts with
      | nil => simpa using first
      | cons next parts =>
          rw [String.intercalate_cons_cons]
          simpa [first, apart] using ih rest

namespace PodKey

/-- The order of pods by namespace and then by name. -/
def Before (key other : PodKey) : Prop :=
  key.ns < other.ns ∨ key.ns = other.ns ∧ key.name < other.name

theorem before_of_compare {key other : PodKey} (less : compare key other = .lt) :
    key.Before other := by
  have split : (compareOn ns key other).then (compareOn name key other) = .lt := less
  rcases Ordering.then_eq_lt.mp split with ns | ⟨ns, name⟩
  · exact .inl (compareOfLessAndEq_eq_lt.mp ns)
  · exact .inr ⟨Std.LawfulEqOrd.eq_of_compare ns, compareOfLessAndEq_eq_lt.mp name⟩

/-- A key without the letters that the text of a peer set is cut at. -/
@[mk_iff] structure Legible (key : PodKey) : Prop where
  unslashed : '/' ∉ key.ns.toList
  unspaced : ' ' ∉ key.ns.toList ∧ ' ' ∉ key.name.toList
  unbroken : '\n' ∉ key.ns.toList ∧ '\n' ∉ key.name.toList

instance (key : PodKey) : Decidable key.Legible := decidable_of_iff' _ (legible_iff key)

def ofDisplay (text : String) : PodKey := ⟨(cutAt '/' text).1, (cutAt '/' text).2⟩

theorem ofDisplay_display {key : PodKey} (legible : key.Legible) :
    ofDisplay key.display = key := by
  have slash : "/".toList = ['/'] := by decide
  rw [ofDisplay, display, String.append_assoc, cutAt_append legible.unslashed slash]

theorem Legible.blank_not_mem {key : PodKey} (legible : key.Legible) :
    ' ' ∉ key.display.toList := by
  simp [display, legible.unspaced]

end PodKey

theorem Owners.pods_sorted (owners : Owners) : owners.pods.toList.Pairwise PodKey.Before :=
  owners.pods.ordered_toList.imp PodKey.before_of_compare

theorem Owners.toList_ne_nil (owners : Owners) : owners.pods.toList ≠ [] := by
  have inhabited := owners.inhabited
  rw [← Std.ExtTreeSet.isEmpty_toList] at inhabited
  simpa using inhabited

theorem Owners.toList_inj {owners other : Owners} :
    owners.pods.toList = other.pods.toList ↔ owners = other := by
  rw [Std.ExtTreeSet.toList_inj]
  constructor
  · intro same
    exact eq_of_mem_iff fun pod => by rw [same]
  · rintro rfl
    rfl

theorem Owners.pieces_display {owners : Owners} (legible : ∀ pod ∈ owners.pods, pod.Legible) :
    (pieces " " owners.display).map PodKey.ofDisplay = owners.pods.toList := by
  have clear : ∀ text ∈ owners.pods.toList.map PodKey.display, ClearOf " " text := by
    intro text member
    obtain ⟨pod, listed, rfl⟩ := List.mem_map.mp member
    exact clearOf_of_head_not_mem ' ' rfl
      (legible pod (Std.ExtTreeSet.mem_toList.mp listed)).blank_not_mem
  rw [display, pieces_intercalate (by decide) (by simpa using owners.toList_ne_nil) clear,
    List.map_map]
  refine (List.map_congr_left fun pod listed => ?_).trans (List.map_id _)
  exact PodKey.ofDisplay_display (legible pod (Std.ExtTreeSet.mem_toList.mp listed))

namespace PeerSet

variable {peers other : PeerSet} {entry : Address × Owners}

/-- The line of an address without the break at its end. -/
def line (entry : Address × Owners) : String :=
  "   " ++ String.ofList (entry.1.write.rightpad 40 ' ') ++ " " ++ entry.2.display

/-- The lines of a peer set below its heading. -/
def listing (peers : PeerSet) : List String :=
  if peers.isEmpty then ["   (empty)"] else peers.owners.toList.map line

def headline (peers : PeerSet) : String := "address set " ++ peers.name ++ ":"

theorem display_eq (peers : PeerSet) :
    peers.display = unlines (peers.headline :: peers.listing) := by
  have heading : ":\n" = ":" ++ "\n" := by decide
  have empty : "   (empty)\n" = "   (empty)" ++ "\n" := by decide
  have lines : peers.owners.toList.map displayLine =
      (peers.owners.toList.map line).map (· ++ "\n") := by
    rw [List.map_map]
    rfl
  unfold display listing headline
  rw [heading, empty, lines]
  split <;> simp [unlines, String.append_assoc]

/-- The letters of a line in front of the owners. -/
def column (address : Address) : String :=
  "   " ++ address.text ++ String.ofList (List.replicate (40 - address.write.length + 1) ' ')

theorem line_eq (entry : Address × Owners) : line entry = column entry.1 ++ entry.2.display := by
  rw [line, column, List.replicate_succ', ← String.toList_inj]
  simp [List.rightpad, Address.text]

theorem length_column (address : Address) : (column address).toList.length = 44 := by
  have short := address.length_write_le
  simp only [column, Address.text, String.toList_append, String.toList_ofList, List.length_append,
    List.length_replicate, String.reduceToList, List.length_cons, List.length_nil]
  omega

/-- The address in the column of a line. -/
def readColumn? (column : List Char) : Option Address :=
  Address.read? ((column.drop 3).takeWhile (· ≠ ' '))

theorem readColumn?_column (address : Address) :
    readColumn? (column address).toList = some address := by
  have unspaced : ' ' ∉ address.write := address.not_mem_write rfl rfl (by decide) (by decide)
  have text : ((column address).toList.drop 3).takeWhile (· ≠ ' ') = address.write := by
    simp only [column, List.replicate_succ, String.toList_append, Address.text,
      String.toList_ofList, String.reduceToList, List.cons_append, List.nil_append,
      List.drop_succ_cons, List.drop_zero]
    rw [takeWhile_ne_append unspaced]
    simp
  rw [readColumn?, text, address.read?_write]

/-- The address and the owners that a line shows. -/
def readLine? (line : String) : Option (Address × List PodKey) :=
  (readColumn? (line.toList.take 44)).map fun address =>
    (address, (pieces " " (.ofList (line.toList.drop 44))).map PodKey.ofDisplay)

theorem readLine?_line (legible : ∀ pod ∈ entry.2.pods, pod.Legible) :
    readLine? (line entry) = some (entry.1, entry.2.pods.toList) := by
  have front : (line entry).toList.take 44 = (column entry.1).toList := by
    rw [line_eq, String.toList_append, ← length_column entry.1, List.take_left]
  have back : (line entry).toList.drop 44 = entry.2.display.toList := by
    rw [line_eq, String.toList_append, ← length_column entry.1, List.drop_left]
  rw [readLine?, front, back, readColumn?_column, String.ofList_toList, Option.map_some,
    Owners.pieces_display legible]

/-- The addresses with their owners, in the order in which they are listed. -/
def entries (peers : PeerSet) : List (Address × List PodKey) :=
  peers.owners.toList.map fun entry => (entry.1, entry.2.pods.toList)

theorem entries_inj : peers.entries = other.entries ↔ peers.owners = other.owners := by
  have injective : Function.Injective fun entry : Address × Owners =>
      (entry.1, entry.2.pods.toList) := by
    rintro ⟨address, owners⟩ ⟨address', owners'⟩ same
    simp only [Prod.mk.injEq, Owners.toList_inj] at same
    rw [same.1, same.2]
  rw [entries, entries, injective.list_map.eq_iff, Std.ExtTreeMap.toList_inj]

/-- There is no line break in the names of the peer set and of its pods. -/
structure Unbroken (peers : PeerSet) : Prop where
  name : '\n' ∉ peers.name.toList
  pods : ∀ pod address, peers.Owns pod address → '\n' ∉ pod.ns.toList ∧ '\n' ∉ pod.name.toList

theorem owns_iff_mem {pod : PodKey} {address : Address} : peers.Owns pod address ↔
    ∃ owners, (address, owners) ∈ peers.owners.toList ∧ pod ∈ owners.pods.toList := by
  simp only [Owns, Std.ExtTreeMap.mem_toList_iff_getElem?_eq_some, Std.ExtTreeSet.mem_toList]

theorem Unbroken.lines (unbroken : peers.Unbroken) :
    ∀ line ∈ peers.headline :: peers.listing, '\n' ∉ line.toList := by
  have heading : '\n' ∉ peers.headline.toList := by
    unfold headline
    simp [unbroken.name]
  refine List.forall_mem_cons.mpr ⟨heading, fun text member => ?_⟩
  rw [listing] at member
  split at member
  · obtain rfl := List.mem_singleton.mp member
    decide
  · obtain ⟨entry, listed, rfl⟩ := List.mem_map.mp member
    have address : '\n' ∉ entry.1.write := entry.1.not_mem_write rfl rfl (by decide) (by decide)
    have owners : '\n' ∉ entry.2.display.toList := by
      refine not_mem_intercalate (by decide) fun text member => ?_
      obtain ⟨pod, inside, rfl⟩ := List.mem_map.mp member
      have names := unbroken.pods pod entry.1 (owns_iff_mem.mpr ⟨entry.2, listed, inside⟩)
      simp [PodKey.display, names]
    simp [line_eq, column, Address.text, address, owners]

/-- The names have no letter in them that the text of the peer set is cut at. -/
structure Legible (peers : PeerSet) : Prop where
  name : '\n' ∉ peers.name.toList
  pods : ∀ pod address, peers.Owns pod address → pod.Legible

theorem legible_iff : peers.Legible ↔ '\n' ∉ peers.name.toList ∧
    ∀ entry ∈ peers.owners.toList, ∀ pod ∈ entry.2.pods.toList, pod.Legible := by
  constructor
  · rintro ⟨name, pods⟩
    exact ⟨name, fun entry member pod inside =>
      pods pod entry.1 (owns_iff_mem.mpr ⟨entry.2, member, inside⟩)⟩
  · rintro ⟨name, pods⟩
    refine ⟨name, fun pod address owns => ?_⟩
    obtain ⟨owners, member, inside⟩ := owns_iff_mem.mp owns
    exact pods (address, owners) member pod inside

instance (peers : PeerSet) : Decidable peers.Legible := decidable_of_iff' _ legible_iff

theorem Legible.unbroken (legible : peers.Legible) : peers.Unbroken where
  name := legible.name
  pods pod address owns := (legible.pods pod address owns).unbroken

theorem Legible.readLine?_listing (legible : peers.Legible) :
    peers.listing.filterMap readLine? = peers.entries := by
  rw [listing, entries]
  split
  next empty =>
    -- The only line of an empty peer set is not the line of an address.
    have unread : readLine? "   (empty)" = none := by decide +kernel
    rw [PeerSet.isEmpty, ← Std.ExtTreeMap.isEmpty_toList, List.isEmpty_iff] at empty
    simp [unread, empty]
  next =>
    rw [List.filterMap_map, ← List.filterMap_eq_map]
    refine List.filterMap_congr fun entry member => ?_
    rw [Function.comp_apply, readLine?_line]
    · rfl
    · intro pod inside
      exact legible.pods pod entry.1
        (owns_iff_mem.mpr ⟨entry.2, member, Std.ExtTreeSet.mem_toList.mpr inside⟩)

/-- A peer set is got back from its text, but for the backing of it. -/
theorem display_eq_iff (legible : peers.Legible) (legible' : other.Legible) :
    peers.display = other.display ↔ peers.name = other.name ∧ peers.owners = other.owners := by
  constructor
  · intro same
    have lines := congrArg (pieces "\n") same
    rw [display_eq, display_eq, pieces_unlines legible.unbroken.lines,
      pieces_unlines legible'.unbroken.lines, List.append_cancel_right_eq, List.cons.injEq] at lines
    obtain ⟨heading, listing⟩ := lines
    unfold headline at heading
    rw [String.append_left_inj, String.append_right_inj] at heading
    rw [← entries_inj, ← legible.readLine?_listing, ← legible'.readLine?_listing, listing]
    exact ⟨heading, rfl⟩
  · rintro ⟨name, owners⟩
    unfold display isEmpty
    rw [name, owners]

/-- How the line of an address is laid out: its owners stand in order behind forty-four letters. -/
def Shows (peers : PeerSet) (address : Address) (text : String) : Prop :=
  ∃ (gap : String) (keys : List PodKey),
    text = "   " ++ address.text ++ gap ++ " ".intercalate (keys.map PodKey.display) ∧
    (∀ letter ∈ gap.toList, letter = ' ') ∧ ("   " ++ address.text ++ gap).length = 44 ∧
    keys.Pairwise PodKey.Before ∧ ∀ pod, pod ∈ keys ↔ peers.Owns pod address

theorem shows_line (member : entry ∈ peers.owners.toList) : peers.Shows entry.1 (line entry) := by
  refine ⟨_, entry.2.pods.toList, line_eq entry, ?_, length_column entry.1, entry.2.pods_sorted,
    fun pod => ?_⟩
  · intro letter member
    rw [String.toList_ofList] at member
    exact List.eq_of_mem_replicate member
  · rw [Std.ExtTreeSet.mem_toList,
      owns_iff_of_found (Std.ExtTreeMap.mem_toList_iff_getElem?_eq_some.mp member)]

theorem isEmpty_iff : peers.isEmpty = true ↔ peers.addresses = [] := by
  rw [isEmpty, addresses, ← Std.ExtTreeMap.isEmpty_keys, List.isEmpty_iff]

theorem shows_listing (inhabited : peers.addresses ≠ []) :
    List.Forall₂ peers.Shows peers.addresses peers.listing := by
  rw [listing, if_neg (isEmpty_iff.not.mpr inhabited), addresses,
    ← Std.ExtTreeMap.map_fst_toList_eq_keys, List.forall₂_map_left_iff, List.forall₂_map_right_iff,
    List.forall₂_same]
  exact fun entry member => shows_line member

theorem listing_empty (none : peers.addresses = []) : peers.listing = ["   (empty)"] := by
  rw [listing, if_pos (isEmpty_iff.mpr none)]

end PeerSet

theorem break_not_mem_digits (n : Nat) : '\n' ∉ Nat.toDigits 10 n :=
  not_mem_toDigits (by decide) (by decide) (by decide) n

theorem Block.break_not_mem_display {block : Block} (network : '\n' ∉ block.network.toList)
    (excepts : ∀ excepted ∈ block.excepts, '\n' ∉ excepted.toList) :
    '\n' ∉ block.display.toList := by
  rw [display]
  split
  · exact network
  · have joined : '\n' ∉ (", ".intercalate block.excepts).toList :=
      not_mem_intercalate (by decide) excepts
    rw [String.toList_intercalate] at joined
    simpa [network] using joined

theorem PortPolicy.break_not_mem_display {policy : PortPolicy}
    (protocol : '\n' ∉ policy.protocol.toList) : '\n' ∉ policy.display.toList := by
  rw [display]
  split
  · exact protocol
  · split <;> simp [protocol, portText, break_not_mem_digits]

namespace Rule

variable {rule : Rule}

/-- The first line of a rule, without the break at its end. -/
def headline (id : RuleId) : String :=
  " ━━━━━━━━━━━━━━━━━ " ++ id.ns ++ "/" ++ id.policy ++ " " ++ id.direction.name ++ " rule " ++
    id.index.toNat.repr ++ " ━━━━━━━━━━━━━━━━━"

/-- The lines of a rule down to its last port. -/
def front (rule : Rule) : List String :=
  headline rule.id :: " ip blocks:" :: rule.blocks.map ("   " ++ ·.display) ++
    " ports:" :: rule.ports.map ("   " ++ ·.display)

/-- The lines on the peer set of a rule. -/
def closing (rule : Rule) : List String :=
  match rule.peers with
  | some peers => (" " ++ peers.headline) :: peers.listing
  | none => [" address set " ++ rule.id.setName ++ ": (not created)"]

theorem break_not_mem_headline_setName {id : RuleId}
    (names : '\n' ∉ id.ns.toList ∧ '\n' ∉ id.policy.toList) :
    '\n' ∉ (headline id).toList ∧ '\n' ∉ id.setName.toList := by
  have direction : '\n' ∉ id.direction.name.toList := by cases id.direction <;> decide
  have index := break_not_mem_digits id.index.toNat
  constructor
  · unfold headline
    simp [-String.reduceAppend, names, direction, index]
  · simp [RuleId.setName, names, direction, index]

theorem displayLines_eq {α : Type} (display : α → String) (entries : List α) :
    displayLines (entries.map display) = unlines (entries.map ("   " ++ display ·)) := by
  simp [displayLines, unlines, Function.comp_def]

theorem heading_eq (id : RuleId) : heading id = headline id ++ "\n" := by
  have ruled : " ━━━━━━━━━━━━━━━━━\n" = " ━━━━━━━━━━━━━━━━━" ++ "\n" := by
    decide +kernel
  -- A simplifier would join the two literals again.
  exact (congrArg (_ ++ ·) ruled).trans (String.append_assoc ..).symm

theorem unlines_closing_some {peers : PeerSet} (given : rule.peers = some peers) :
    unlines rule.closing = " " ++ peers.display := by
  simp only [closing, given, peers.display_eq, unlines_cons, String.append_assoc]

theorem unlines_closing_none (missing : rule.peers = none) :
    unlines rule.closing = " address set " ++ rule.id.setName ++ ": (not created)\n" := by
  have broken : ": (not created)\n" = ": (not created)" ++ "\n" := by decide +kernel
  simp only [closing, missing, broken, unlines_cons, unlines_nil, String.append_assoc,
    String.append_empty]

theorem display_eq (rule : Rule) : rule.display = unlines rule.front ++ unlines rule.closing := by
  have blocks : " ip blocks:\n" = " ip blocks:" ++ "\n" := by decide +kernel
  have ports : " ports:\n" = " ports:" ++ "\n" := by decide +kernel
  rw [display, displayLines_eq, displayLines_eq, heading_eq, blocks, ports]
  cases given : rule.peers with
  | none =>
      simp only [front, unlines_closing_none given, unlines_append, unlines_cons,
        String.append_assoc]
  | some peers =>
      simp only [front, unlines_closing_some given, unlines_append, unlines_cons,
        String.append_assoc]

/-- There is no line break in what a rule and its peer set are displayed with. -/
structure Unbroken (rule : Rule) : Prop where
  id : '\n' ∉ rule.id.ns.toList ∧ '\n' ∉ rule.id.policy.toList
  blocks : ∀ block ∈ rule.blocks,
    '\n' ∉ block.network.toList ∧ ∀ excepted ∈ block.excepts, '\n' ∉ excepted.toList
  ports : ∀ policy ∈ rule.ports, '\n' ∉ policy.protocol.toList
  peers : ∀ peers, rule.peers = some peers → peers.Unbroken

theorem Unbroken.front (unbroken : rule.Unbroken) : ∀ line ∈ rule.front, '\n' ∉ line.toList := by
  have heading := (break_not_mem_headline_setName unbroken.id).1
  intro line member
  simp only [Rule.front, List.cons_append, List.mem_cons, List.mem_append, List.mem_map] at member
  rcases member with rfl | rfl | ⟨block, listed, rfl⟩ | rfl | ⟨policy, listed, rfl⟩
  · exact heading
  · decide
  · have clear := Block.break_not_mem_display (unbroken.blocks block listed).1
      (unbroken.blocks block listed).2
    simp [clear]
  · decide
  · have clear := PortPolicy.break_not_mem_display (unbroken.ports policy listed)
    simp [clear]

theorem Unbroken.closing (unbroken : rule.Unbroken) :
    ∀ line ∈ rule.closing, '\n' ∉ line.toList := by
  rw [Rule.closing]
  split
  next peers given =>
    obtain ⟨heading, listing⟩ := List.forall_mem_cons.mp (unbroken.peers peers given).lines
    exact List.forall_mem_cons.mpr ⟨by simp [heading], listing⟩
  next =>
    have name := (break_not_mem_headline_setName unbroken.id).2
    simp [name]

theorem Unbroken.pieces_display (unbroken : rule.Unbroken) :
    pieces "\n" rule.display = rule.front ++ rule.closing ++ [""] := by
  rw [display_eq, ← unlines_append, pieces_unlines]
  exact List.forall_mem_append.mpr ⟨unbroken.front, unbroken.closing⟩

/-- Add a block or a port to a rule. -/
def insert (rule : Rule) : Block ⊕ PortPolicy → Rule
  | .inl block => rule.addBlock block
  | .inr policy => rule.addPort policy

theorem foldl_insert (additions : List (Block ⊕ PortPolicy)) (rule : Rule) :
    additions.foldl insert rule =
      { rule with
        blocks := rule.blocks ++ additions.filterMap Sum.getLeft?
        ports := rule.ports ++ additions.filterMap Sum.getRight? } := by
  induction additions generalizing rule with
  | nil => simp
  | cons addition additions ih =>
      rw [List.foldl_cons, ih]
      cases addition <;> simp [insert, addBlock, addPort, List.filterMap_cons]

end Rule

/-- A peer set has a line for each address, in order, with the owners of all addresses in one
column, and legible peer sets are told apart by their texts. A rule has a line for each block and
each port, in the order in which they were added, and ends with its peer set. -/
theorem displays_are_aligned_and_lose_nothing (peers other : PeerSet) (rule : Rule) :
    (peers.display = unlines (("address set " ++ peers.name ++ ":") :: peers.listing) ∧
      (peers.addresses = [] → peers.listing = ["   (empty)"]) ∧
      (peers.addresses ≠ [] → List.Forall₂ peers.Shows peers.addresses peers.listing)) ∧
    (Address.Sorted peers.addresses ∧
      peers.addresses = peers.addresses.filter (·.family = .v4) ++
        peers.addresses.filter (·.family = .v6) ∧
      ∀ address : Address, address.text.length ≤ 40 ∧
        (address ∈ peers.addresses ↔ ∃ pod, peers.Owns pod address)) ∧
    (peers.Legible → other.Legible →
      (peers.display = other.display ↔ peers.name = other.name ∧ peers.owners = other.owners)) ∧
    (rule.peers = some peers → rule.display = unlines rule.front ++ " " ++ peers.display) ∧
    (rule.peers = none → rule.display =
      unlines rule.front ++ " address set " ++ rule.id.setName ++ ": (not created)\n") ∧
    (rule.Unbroken → pieces "\n" rule.display = rule.front ++ rule.closing ++ [""]) ∧
    ∀ additions : List (Block ⊕ PortPolicy),
      (additions.foldl Rule.insert rule).front =
        Rule.headline rule.id :: " ip blocks:" ::
          (rule.blocks ++ additions.filterMap Sum.getLeft?).map ("   " ++ ·.display) ++
        " ports:" ::
          (rule.ports ++ additions.filterMap Sum.getRight?).map ("   " ++ ·.display) := by
  refine ⟨⟨peers.display_eq, PeerSet.listing_empty, PeerSet.shows_listing⟩,
    ⟨peers.addresses_sorted, peers.addresses_sorted.split, fun address => ⟨?_, ?_⟩⟩,
    PeerSet.display_eq_iff, fun given => ?_, fun missing => ?_, Rule.Unbroken.pieces_display,
    fun additions => ?_⟩
  · have short := address.length_write_le
    rw [Address.text, String.length_ofList]
    omega
  · rw [PeerSet.mem_addresses, PeerSet.mem_owners_iff]
  · rw [rule.display_eq, Rule.unlines_closing_some given, String.append_assoc]
  · rw [rule.display_eq, Rule.unlines_closing_none missing]
    simp only [String.append_assoc]
  · rw [Rule.foldl_insert]
    rfl

/-- An IPv4 address with one owner and an IPv6 address with two owners. -/
def sharedPeers : PeerSet where
  name := "ns1.pol1.ingress.0"
  owners := (∅ : Std.ExtTreeMap Address Owners)
    |>.insert (.v6 ⟨0xfd00, 0, 0, 0, 0, 0, 0, 5⟩)
      ((Owners.single ⟨"ns2", "a"⟩).add ⟨"ns1", "web-0"⟩)
    |>.insert (.v4 ⟨10, 0, 0, 5⟩) (.single ⟨"ns1", "web-0"⟩)

/-- The same addresses, with one owner each. -/
def soloPeers : PeerSet where
  name := "ns1.pol1.ingress.0"
  owners := (∅ : Std.ExtTreeMap Address Owners)
    |>.insert (.v6 ⟨0xfd00, 0, 0, 0, 0, 0, 0, 5⟩) (.single ⟨"ns1", "web-0"⟩)
    |>.insert (.v4 ⟨10, 0, 0, 5⟩) (.single ⟨"ns1", "web-0"⟩)

def shownRule : Rule where
  id := ⟨.ingress, 0, "ns1", "pol1"⟩
  families := .dualStack
  blocks := [⟨"0.0.0.0/0", ["10.1.0.0/16", "10.2.0.0/16"]⟩]
  ports := [⟨"TCP", 80, 0⟩]
  peers := some sharedPeers

theorem displays_are_aligned_and_lose_nothing_shared :
    let vacant : PeerSet := { name := "ns1.pol1.ingress.0" }
    let bare : Rule := { shownRule with peers := none }
    sharedPeers.addresses ≠ [] ∧ List.Forall₂ sharedPeers.Shows sharedPeers.addresses
      ["   10.0.0.5                                 ns1/web-0",
        "   fd00::5                                  ns1/web-0 ns2/a"] ∧
    sharedPeers.Legible ∧ soloPeers.Legible ∧ sharedPeers.display ≠ soloPeers.display ∧
    (∃ front, shownRule.display = front ++ " " ++ sharedPeers.display) ∧
    vacant.listing = ["   (empty)"] ∧
    bare.display = unlines bare.front ++ " address set " ++ bare.id.setName ++ ": (not created)\n" ∧
    shownRule.Unbroken ∧ pieces "\n" shownRule.display =
      [" ━━━━━━━━━━━━━━━━━ ns1/pol1 ingress rule 0 ━━━━━━━━━━━━━━━━━", " ip blocks:",
        "   0.0.0.0/0 except [10.1.0.0/16, 10.2.0.0/16]", " ports:", "   TCP/80",
        " address set ns1.pol1.ingress.0:",
        "   10.0.0.5                                 ns1/web-0",
        "   fd00::5                                  ns1/web-0 ns2/a", ""] := by
  intro vacant bare
  have legible : sharedPeers.Legible := by decide +kernel
  have legible' : soloPeers.Legible := by decide +kernel
  have different : sharedPeers.owners ≠ soloPeers.owners := fun same =>
    absurd (PeerSet.entries_inj.mpr same) (by decide +kernel)
  have inhabited : sharedPeers.addresses ≠ [] := by decide +kernel
  have unbroken : shownRule.Unbroken :=
    { id := by decide
      blocks := by decide
      ports := by decide
      peers := by
        intro peers given
        obtain rfl := Option.some.inj given
        exact legible.unbroken }
  have listing : sharedPeers.listing = ["   10.0.0.5                                 ns1/web-0",
      "   fd00::5                                  ns1/web-0 ns2/a"] := by decide +kernel
  obtain ⟨⟨-, -, shown⟩, -, reads, ended, -, cut, -⟩ :=
    displays_are_aligned_and_lose_nothing sharedPeers soloPeers shownRule
  obtain ⟨⟨-, blank, -⟩, -, -, -, missing, -⟩ :=
    displays_are_aligned_and_lose_nothing vacant soloPeers bare
  exact ⟨inhabited, listing ▸ shown inhabited, legible, legible',
    fun same => different ((reads legible legible').mp same).2, ⟨_, ended rfl⟩,
    blank (by decide +kernel), missing rfl, unbroken, (cut unbroken).trans (by decide +kernel)⟩

end PolicyAcl
