import PolicyAcl.Config.Basic
import PolicyAcl.Proofs.Coherence
import PolicyAcl.Proofs.History
import PolicyAcl.Proofs.PacketFields

/-! The match over the address sets that a rule refers to. It lists the names that are tracked
and the name of the rule's own set in the order of their letters, and depends on nothing else.
The sets are got back from its text if no name has a letter that the text is read by. -/
namespace PolicyAcl

/-- What stands behind each dollar sign, up to the next comma or closing brace. -/
def readReferences : List Char → List (List Char)
  | [] => []
  | letter :: text =>
    if letter = '$' then
      text.takeWhile (fun c => c ≠ ',' ∧ c ≠ '\x7d') :: readReferences text
    else readReferences text

/-- The names of the sets that a match refers to. -/
def references (text : String) : List String := (readReferences text.toList).map String.ofList

/-- A name without the letters that references are told apart by. -/
def Readable (name : String) : Prop :=
  '$' ∉ name.toList ∧ ',' ∉ name.toList ∧ '\x7d' ∉ name.toList

instance (name : String) : Decidable (Readable name) :=
  inferInstanceAs (Decidable (_ ∧ _))

section
variable {name : String} {names : List String} {family : Family}

theorem readReferences_append {front : List Char} (absent : '$' ∉ front) (text : List Char) :
    readReferences (front ++ text) = readReferences text := by
  induction front with
  | nil => rfl
  | cons letter front ih =>
      rw [List.mem_cons, not_or] at absent
      rw [List.cons_append, readReferences, if_neg (Ne.symm absent.1), ih absent.2]

theorem readReferences_name (readable : Readable name) {stop : Char}
    (stops : stop = ',' ∨ stop = '\x7d') (text : List Char) :
    readReferences ('$' :: (name.toList ++ stop :: text)) =
      name.toList :: readReferences text := by
  obtain ⟨dollar, comma, brace⟩ := readable
  have inside : ∀ c ∈ name.toList, decide (c ≠ ',' ∧ c ≠ '\x7d') = true := fun c member => by
    simpa using ⟨fun same => comma (same ▸ member), fun same => brace (same ▸ member)⟩
  have passed : '$' ∉ name.toList ++ [stop] := by
    rcases stops with rfl | rfl <;> simpa using dollar
  have later := readReferences_append passed text
  rw [List.append_assoc, List.singleton_append] at later
  rw [readReferences, if_pos rfl, later, List.takeWhile_append_of_pos inside]
  rcases stops with rfl | rfl <;> simp

theorem readReferences_list (readable : ∀ name ∈ names, Readable name) (text : List Char) :
    readReferences ((", ".intercalate (names.map ("$" ++ ·))).toList ++ '\x7d' :: text) =
      names.map String.toList ++ readReferences text := by
  induction names with
  | nil =>
      have brace : '$' ∉ ['\x7d'] := by decide
      simpa using readReferences_append brace text
  | cons name names ih =>
      obtain ⟨first, later⟩ := List.forall_mem_cons.mp readable
      cases names with
      | nil =>
          have read := readReferences_name first (.inr rfl) text
          simpa using read
      | cons next names =>
          have read := readReferences_name first (.inl rfl)
            ([' '] ++ ((", ".intercalate ((next :: names).map ("$" ++ ·))).toList ++ '\x7d' :: text))
          rw [readReferences_append (by decide), ih later] at read
          rw [List.map_cons, List.map_cons, String.intercalate_cons_cons]
          simpa using read

theorem Readable.setName (readable : Readable name) : Readable (family.setName name) := by
  obtain ⟨dollar, comma, brace⟩ := readable
  cases family <;> simp [Readable, Family.setName, Family.suffix, dollar, comma, brace]

theorem readReferences_clause (direction : Direction) (readable : ∀ name ∈ names, Readable name)
    (family : Family) (text : List Char) :
    readReferences ((Rule.addressClause direction.peerField names family).toList ++ text) =
      (names.map family.setName).map String.toList ++ readReferences text := by
  have front : '$' ∉ (family.token ++ "." ++ direction.peerField ++ " == " ++ "\x7b").toList := by
    cases family <;> cases direction <;> decide
  have listed : ∀ name ∈ names.map family.setName, Readable name := by
    intro name member
    obtain ⟨base, listed, rfl⟩ := List.mem_map.mp member
    exact (readable base listed).setName
  have read := readReferences_list listed text
  rw [← readReferences_append front] at read
  rw [← read, Rule.addressClause, braced, List.map_map]
  simp only [String.toList_append, List.append_assoc]
  rfl

theorem readReferences_clauses (direction : Direction) (readable : ∀ name ∈ names, Readable name)
    (families : List Family) (text : List Char) :
    readReferences ((" || ".intercalate
        (families.map (Rule.addressClause direction.peerField names))).toList ++ text) =
      (families.flatMap fun family => names.map family.setName).map String.toList ++
        readReferences text := by
  induction families with
  | nil => rfl
  | cons family families ih =>
      cases families with
      | nil =>
          have read := readReferences_clause direction readable family text
          simpa using read
      | cons next families =>
          rw [List.map_cons, List.map_cons, String.intercalate_cons_cons, ← List.map_cons,
            String.toList_append, String.toList_append, List.append_assoc, List.append_assoc,
            readReferences_clause direction readable, readReferences_append (by decide), ih]
          simp

theorem references_match (direction : Direction) (readable : ∀ name ∈ names, Readable name)
    (families : List Family) :
    references ("(" ++ " || ".intercalate
        (families.map (Rule.addressClause direction.peerField names)) ++ ")") =
      families.flatMap fun family => names.map family.setName := by
  have closing : readReferences [')'] = [] := by decide
  rw [references, String.toList_append, String.toList_append, List.append_assoc,
    readReferences_append (by decide), show ")".toList = [')'] by decide,
    readReferences_clauses direction readable, closing, List.append_nil, List.map_map]
  simp [Function.comp_def]

end

namespace Rule

variable {id : RuleId} {families : Families} {rule : Rule} {store : Store} {name : String}

/-- The answer tells whether the tracked names change. -/
theorem addNamespace_changes (rule : Rule) (name : String) :
    (rule.addNamespace name).1 = true ↔ (rule.addNamespace name).2.namespaces ≠ rule.namespaces := by
  by_cases tracked : name ∈ rule.namespaces
  · have same : rule.namespaces.insert name = rule.namespaces := by
      ext other
      by_cases equal : name = other
      · subst equal; simp [tracked]
      · simp [equal]
    simp [addNamespace, same, tracked]
  · have changed : rule.namespaces.insert name ≠ rule.namespaces := by
      intro same
      exact tracked (same ▸ Std.ExtTreeSet.mem_insert_self)
    have untracked : rule.namespaces.contains name = false := by
      simpa [← Bool.not_eq_true] using tracked
    simp [addNamespace, changed, untracked]

theorem removeNamespace_changes (rule : Rule) (name : String) :
    (rule.removeNamespace name).1 = true ↔
      (rule.removeNamespace name).2.namespaces ≠ rule.namespaces := by
  by_cases tracked : name ∈ rule.namespaces
  · have changed : rule.namespaces.erase name ≠ rule.namespaces := by
      intro same
      rw [← same] at tracked
      simp at tracked
    simp [removeNamespace, changed, tracked]
  · have same : rule.namespaces.erase name = rule.namespaces := by
      ext other
      by_cases equal : name = other
      · subst equal; simp [tracked]
      · simp [equal]
    simp [removeNamespace, same, tracked]

/-- A rule as it is made under a configuration. -/
def ofConfig (id : RuleId) (config : Config) : Rule := { id, families := config.families }

/-- The rule that a history leads to. -/
def reached (id : RuleId) (config : Config) (store : Store) (events : List (Event Action)) : Rule :=
  (Event.run Action.apply events (ofConfig id config, store)).1

/-- What a session leaves of a rule: who it is, the name of its peer set, and the names that
were tracked last. The latest event comes first. -/
structure Follows (id : RuleId) (families : Families) (history : List (Event Action))
    (rule : Rule) : Prop where
  identity : rule.id = id
  enabled : rule.families = families
  named : ∀ peers, rule.peers = some peers → peers.name = id.setName
  tracks : ∀ name, name ∈ rule.namespaces ↔
    Since (· = .act (.edit (.addNamespace name))) (· = .act (.edit (.removeNamespace name))) history

theorem Operation.apply_name (named : ∀ peers, rule.peers = some peers → peers.name = rule.id.setName)
    (operation : Operation) : ∀ peers, (operation.apply rule store).state.peers = some peers →
      peers.name = rule.id.setName := by
  cases operation with
  | ensure =>
      exact ensurePeers_keeps named fun _ _ ensured => (PeerSet.ensure_backs ensured).1
  | addPods pods =>
      refine onPeers_keeps named fun peers same => ?_
      rwa [addEach_rest]
  | deletePod pod =>
      exact onPeers_keeps named fun peers =>
        (congrArg PeerSet.name (peers.removeAll_rest pod.key store)).trans
  | destroy =>
      refine destroy_keeps named fun peers same => ?_
      rwa [PeerSet.destroy_rest]

theorem Follows.step {history : List (Event Action)} (follows : rule.Follows id families history)
    (event : Event Action) (store : Store) :
    (event.apply Action.apply (rule, store)).1.Follows id families (event :: history) := by
  obtain ⟨identity, enabled, named, tracks⟩ := follows
  have untold (event : Event Action)
      (other : ∀ name, event ≠ .act (.edit (.addNamespace name)) ∧
        event ≠ .act (.edit (.removeNamespace name))) (name : String) :
      name ∈ rule.namespaces ↔ Since (· = .act (.edit (.addNamespace name)))
        (· = .act (.edit (.removeNamespace name))) (event :: history) := by
    rw [tracks, since_cons]
    simp [other name]
  cases event with
  | act action =>
      cases action with
      | work operation =>
          obtain ⟨peers, same⟩ := operation.apply_state rule store
          have kept : ∀ peers, (operation.apply rule store).state.peers = some peers →
              peers.name = rule.id.setName :=
            Operation.apply_name (by rwa [identity]) operation
          simp only [Event.apply, Action.apply, same] at kept ⊢
          exact ⟨identity, enabled, identity ▸ kept, untold _ (by simp)⟩
      | edit change =>
          cases change with
          | addBlock block => exact ⟨identity, enabled, named, untold _ (by simp)⟩
          | addPort port => exact ⟨identity, enabled, named, untold _ (by simp)⟩
          | addNamespace new =>
              refine ⟨identity, enabled, named, fun name => ?_⟩
              rw [since_cons, ← tracks]
              simp [Event.apply, Action.apply, Edit.apply, addNamespace]
          | removeNamespace old =>
              refine ⟨identity, enabled, named, fun name => ?_⟩
              rw [since_cons, ← tracks]
              simp [Event.apply, Action.apply, Edit.apply, removeNamespace]
  | failOn op => exact ⟨identity, enabled, named, untold _ (by simp)⟩
  | block op set => exact ⟨identity, enabled, named, untold _ (by simp)⟩
  | clearFaults => exact ⟨identity, enabled, named, untold _ (by simp)⟩
  | foreign call => exact ⟨identity, enabled, named, untold _ (by simp)⟩

theorem Follows.run {history : List (Event Action)} (follows : rule.Follows id families history)
    (events : List (Event Action)) (store : Store) :
    (Event.run Action.apply events (rule, store)).1.Follows id families
      (events.reverse ++ history) := by
  induction events generalizing rule store history with
  | nil => exact follows
  | cons event events ih =>
      rw [List.reverse_cons, List.append_assoc]
      exact ih (follows.step event store) _

theorem follows_reached (id : RuleId) (config : Config) (store : Store)
    (events : List (Event Action)) :
    (reached id config store events).Follows id config.families events.reverse := by
  have start : (ofConfig id config).Follows id config.families [] :=
    ⟨rfl, rfl, fun _ some => (nomatch some), fun name => by simp [ofConfig, not_since_nil]⟩
  simpa [reached] using start.run events store

section
variable {history : List (Event Action)} (follows : rule.Follows id families history)
include follows

theorem Follows.mem_referenced :
    name ∈ rule.referenced ↔ name ∈ rule.namespaces ∨ rule.peers ≠ none ∧ name = id.setName := by
  unfold referenced
  cases present : rule.peers with
  | none => simp
  | some peers =>
      simp [follows.named peers present, eq_comm (a := name), or_comm]

theorem Follows.addressMatch?_eq :
    rule.addressMatch? = if rule.referenced.toList = [] then none else
      some ("(" ++ " || ".intercalate (families.enabled.map
        (addressClause id.direction.peerField rule.referenced.toList)) ++ ")") := by
  rw [addressMatch?, follows.identity, follows.enabled]
  refine if_congr ?_ rfl rfl
  rw [← List.isEmpty_iff, Std.ExtTreeSet.isEmpty_toList]

theorem Follows.addressMatch?_eq_none :
    rule.addressMatch? = none ↔ (∀ name, name ∉ rule.namespaces) ∧ rule.peers = none := by
  rw [follows.addressMatch?_eq]
  constructor
  · intro nothing
    have unlisted : ∀ name, name ∉ rule.referenced := fun name listed => by
      have member := Std.ExtTreeSet.mem_toList.mpr listed
      split at nothing
      next empty => simp [empty] at member
      next => cases nothing
    simp only [follows.mem_referenced, not_or, not_and_or, not_not] at unlisted
    exact ⟨fun name => (unlisted name).1, (unlisted id.setName).2.resolve_right (by simp)⟩
  · rintro ⟨untracked, absent⟩
    rw [if_pos]
    refine List.eq_nil_iff_forall_not_mem.mpr fun name listed => ?_
    rw [Std.ExtTreeSet.mem_toList, follows.mem_referenced] at listed
    rcases listed with tracked | ⟨present, -⟩
    · exact untracked name tracked
    · exact present absent

theorem Follows.addressMatch?_congr {other : Rule} {latter : List (Event Action)}
    (follows' : other.Follows id families latter)
    (tracked : ∀ name, name ∈ other.namespaces ↔ name ∈ rule.namespaces)
    (present : other.peers = none ↔ rule.peers = none) :
    other.addressMatch? = rule.addressMatch? := by
  have same : other.referenced = rule.referenced := by
    ext name
    rw [follows.mem_referenced, follows'.mem_referenced, tracked, ne_eq, ne_eq, present]
  rw [follows.addressMatch?_eq, follows'.addressMatch?_eq, same]

end

end Rule

theorem sorted_toList (names : Std.ExtTreeSet String) : names.toList.Pairwise (· < ·) :=
  names.ordered_toList.imp compareOfLessAndEq_eq_lt.mp

theorem Families.enabled_sublist (families : Families) :
    families.enabled.Sublist [Family.v4, Family.v6] :=
  List.filter_sublist

/-- The match lists the tracked names and the rule's own one, if it has a peer set, in order
and once for each enabled family, and they are read back from it. It depends on nothing else
that a history does. -/
theorem address_match_lists_referenced_sets (id : RuleId) (config : Config) (store : Store)
    (events : List (Event Rule.Action)) :
    let rule := Rule.reached id config store events
    let enabled := config.families.enabled
    (∀ name, name ∈ rule.namespaces ↔ Since (· = .act (.edit (.addNamespace name)))
      (· = .act (.edit (.removeNamespace name))) events.reverse) ∧
    (∀ name, ((rule.addNamespace name).1 = true ↔
        (rule.addNamespace name).2.namespaces ≠ rule.namespaces) ∧
      ((rule.removeNamespace name).1 = true ↔
        (rule.removeNamespace name).2.namespaces ≠ rule.namespaces)) ∧
    (rule.addressMatch? = none ↔ (∀ name, name ∉ rule.namespaces) ∧ rule.peers = none) ∧
    (enabled ≠ [] ∧ enabled.Sublist [.v4, .v6] ∧
      ∀ family, family ∈ enabled ↔ config.families.isEnabled family = true) ∧
    (∃ names : List String, names.Pairwise (· < ·) ∧
      (∀ name, name ∈ names ↔
        name ∈ rule.namespaces ∨ rule.peers ≠ none ∧ name = id.setName) ∧
      ∀ text, rule.addressMatch? = some text →
        text = "(" ++ " || ".intercalate (enabled.map fun family =>
          family.token ++ "." ++ id.direction.peerField ++ " == " ++
            braced (", ".intercalate (names.map fun name => "$" ++ family.setName name))) ++ ")" ∧
        ((∀ name ∈ names, Readable name) →
          references text = enabled.flatMap fun family => names.map family.setName)) ∧
    ∀ (store' : Store) (events' : List (Event Rule.Action)),
      let other := Rule.reached id config store' events'
      (∀ name, name ∈ other.namespaces ↔ name ∈ rule.namespaces) →
      (other.peers = none ↔ rule.peers = none) → other.addressMatch? = rule.addressMatch? := by
  intro rule enabled
  have follows := Rule.follows_reached id config store events
  refine ⟨follows.tracks, fun name =>
      ⟨rule.addNamespace_changes name, rule.removeNamespace_changes name⟩,
    follows.addressMatch?_eq_none,
    ⟨config.families.enabled_ne_nil, config.families.enabled_sublist, fun _ => Families.mem_enabled⟩,
    ⟨rule.referenced.toList, sorted_toList _, fun name => ?listed, fun text shown => ?text⟩, ?same⟩
  case listed => rw [Std.ExtTreeSet.mem_toList, follows.mem_referenced]
  case text =>
    rw [follows.addressMatch?_eq] at shown
    split at shown
    next => cases shown
    next =>
      cases shown
      exact ⟨rfl, fun readable => references_match id.direction readable enabled⟩
  case same =>
    intro store' events' other tracked present
    exact follows.addressMatch?_congr (Rule.follows_reached id config store' events') tracked present

/-- The rule's own name is tracked as well, and one name only for a while. -/
def ownNameTracked : List (Event Rule.Action) :=
  [.act (.edit (.addNamespace "ns2")), .act (.work .ensure),
    .act (.edit (.addNamespace "ns1.pol1.egress.2")), .act (.edit (.addNamespace "ns3")),
    .failOn .destroy, .act (.work .destroy), .act (.edit (.removeNamespace "ns3"))]

/-- Two of the names are tracked from the start, and the peer set is ensured twice. -/
def ownNameTrackedFirst : List (Event Rule.Action) :=
  [.act (.edit (.addNamespace "ns1.pol1.egress.2")), .act (.edit (.addNamespace "ns2")),
    .act (.work .ensure), .act (.work .destroy), .act (.work .ensure)]

def egressId : RuleId := ⟨.egress, 2, "ns1", "pol1"⟩

def dualConfig : Config := { families := .dualStack }

theorem address_match_lists_referenced_sets_own_tracked :
    let text := "(ip4.dst == " ++ braced "$ns1.pol1.egress.2_v4, $ns2_v4" ++ " || ip6.dst == " ++
      braced "$ns1.pol1.egress.2_v6, $ns2_v6" ++ ")"
    (Rule.reached egressId dualConfig {} ownNameTracked).addressMatch? = some text ∧
    (∃ names : List String, names.Pairwise (· < ·) ∧ (∀ name ∈ names, Readable name) ∧
      references text = dualConfig.families.enabled.flatMap fun family =>
        names.map family.setName) ∧
    (∀ name, name ∈ (Rule.reached egressId dualConfig {} ownNameTrackedFirst).namespaces ↔
      name ∈ (Rule.reached egressId dualConfig {} ownNameTracked).namespaces) ∧
    ((Rule.reached egressId dualConfig {} ownNameTrackedFirst).peers = none ↔
      (Rule.reached egressId dualConfig {} ownNameTracked).peers = none) ∧
    (Rule.reached egressId dualConfig {} ownNameTrackedFirst).addressMatch? =
      (Rule.reached egressId dualConfig {} ownNameTracked).addressMatch? := by
  intro text
  have shown : (Rule.reached egressId dualConfig {} ownNameTracked).addressMatch? = some text := by
    decide +kernel
  have tracked (events : List (Event Rule.Action))
      (one : events = ownNameTracked ∨ events = ownNameTrackedFirst) :
      (Rule.reached egressId dualConfig {} events).namespaces.toList =
        ["ns1.pol1.egress.2", "ns2"] := by
    rcases one with rfl | rfl <;> decide +kernel
  have present (events : List (Event Rule.Action))
      (one : events = ownNameTracked ∨ events = ownNameTrackedFirst) :
      (Rule.reached egressId dualConfig {} events).peers.isSome = true := by
    rcases one with rfl | rfl <;> decide +kernel
  have alike (name : String) :
      name ∈ (Rule.reached egressId dualConfig {} ownNameTrackedFirst).namespaces ↔
        name ∈ (Rule.reached egressId dualConfig {} ownNameTracked).namespaces := by
    rw [← Std.ExtTreeSet.mem_toList, tracked _ (.inr rfl), ← tracked _ (.inl rfl),
      Std.ExtTreeSet.mem_toList]
  have both : (Rule.reached egressId dualConfig {} ownNameTrackedFirst).peers = none ↔
      (Rule.reached egressId dualConfig {} ownNameTracked).peers = none := by
    rw [← Option.not_isSome_iff_eq_none, ← Option.not_isSome_iff_eq_none, present _ (.inr rfl),
      present _ (.inl rfl)]
  obtain ⟨-, -, -, -, ⟨names, sorted, listed, texts⟩, same⟩ :=
    address_match_lists_referenced_sets egressId dualConfig {} ownNameTracked
  have readable : ∀ name ∈ names, Readable name := by
    intro name member
    rcases (listed name).mp member with member | ⟨-, rfl⟩
    · have each : ∀ name ∈ ["ns1.pol1.egress.2", "ns2"], Readable name := by decide +kernel
      rw [← Std.ExtTreeSet.mem_toList, tracked _ (.inl rfl)] at member
      exact each name member
    · decide +kernel
  exact ⟨shown, ⟨names, sorted, readable, (texts text shown).2 readable⟩, alike, both,
    same {} ownNameTrackedFirst alike both⟩

end PolicyAcl
