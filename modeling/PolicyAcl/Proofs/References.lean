import PolicyAcl.Proofs.Bookkeeping

/-! The sets that the match of a rule refers to. The match names one half for each
enabled family as long as the rule has a peer set, and a destroy that stops at the
IPv6 half has dropped the IPv4 half already. -/
namespace PolicyAcl

open Store (Contents)

namespace Rule

/-- What the latest destroy of a session answered, if there was one. -/
def latestDestroy : List (Event Action) → Rule × Store → Option (Except PeerError Unit) →
    Option (Except PeerError Unit)
  | [], _, latest => latest
  | event :: events, (rule, store), latest =>
    latestDestroy events (event.apply Action.apply (rule, store)) <|
      match event with
      | .act (.work .destroy) => some (rule.destroy store).answer
      | _ => latest

def StoppedAtV6 (base : String) (latest : Option (Except PeerError Unit)) : Prop :=
  ∃ cause, latest = some (.error (.destroy (Family.setName .v6 base) cause))

/-- The match has a clause of the family that lists the set. -/
def Refers (rule : Rule) (family : Family) (set : String) : Prop :=
  ∃ clauses refs, rule.addressMatch? = some ("(" ++ " || ".intercalate clauses ++ ")") ∧
    family.token ++ "." ++ rule.id.direction.peerField ++ " == " ++ braced (", ".intercalate refs) ∈
      clauses ∧
    "$" ++ set ∈ refs

/-- Only a destroy that stopped at the IPv6 half takes a half from a rule that has a
peer set, and it takes the IPv4 half. -/
structure Tracked (base : String) (families : Families) (latest : Option (Except PeerError Unit))
    (rule : Rule) (contents : Contents) : Prop where
  coherent : rule.Coherent base families contents
  clean : rule.peers = none → ¬StoppedAtV6 base latest
  unbacked : ∀ peers, rule.peers = some peers → ∀ family, families.isEnabled family = true →
    (peers.backing.handle? family = none ↔ family = .v4 ∧ StoppedAtV6 base latest)

variable {base : String} {families : Families} {rule : Rule} {store : Store}
  {latest : Option (Except PeerError Unit)}

theorem refers_of_peers {peers : PeerSet} (some : rule.peers = some peers) {family : Family}
    (enabled : rule.families.isEnabled family = true) :
    rule.Refers family (family.setName peers.name) := by
  have listed : peers.name ∈ rule.referenced := by
    simp [referenced, some]
  have referring : rule.referenced.isEmpty = false := by
    simp [referenced, some]
  refine ⟨rule.families.enabled.map
    (addressClause rule.id.direction.peerField rule.referenced.toList),
    rule.referenced.toList.map fun base => "$" ++ family.setName base, ?_, ?_, ?_⟩
  · rw [addressMatch?, referring]
    rfl
  · exact List.mem_map_of_mem (Families.mem_enabled.mpr enabled)
  · exact List.mem_map.mpr ⟨peers.name, Std.ExtTreeSet.mem_toList.mpr listed, rfl⟩

theorem Tracked.onPeers (h : rule.Tracked base families latest store.contents)
    {work : PeerSet → Store → Outcome PeerSet Unit}
    (backing : ∀ peers, (work peers store).state.backing = peers.backing)
    (coherent : (rule.onPeers work store).state.Coherent base families
      (rule.onPeers work store).store.contents) :
    (rule.onPeers work store).state.Tracked base families latest
      (rule.onPeers work store).store.contents := by
  cases ended : rule.onPeers work store with
  | mk answer next after =>
      rw [ended] at coherent
      rcases onPeers_cases ended with ⟨-, -, rfl, rfl⟩ | ⟨peers, reached, some, worked, rfl⟩
      · exact h
      · have kept := backing peers
        rw [worked] at kept
        refine ⟨coherent, fun none => (nomatch none), fun other there family enabled => ?_⟩
        cases there
        rw [kept]
        exact h.unbacked peers some family enabled

theorem Tracked.ensure (h : rule.Tracked base families latest store.contents) :
    (rule.ensurePeers store).state.Tracked base families latest
      (rule.ensurePeers store).store.contents := by
  have coherent := h.coherent.ensure
  cases ended : rule.ensurePeers store with
  | mk answer next after =>
      rw [ended] at coherent
      rcases ensurePeers_cases ended with
        ⟨-, -, rfl, rfl⟩ | ⟨peers, none, -, ensured, rfl⟩ | ⟨error, none, -, -, rfl⟩
      · exact h
      · have clean := h.clean none
        obtain ⟨-, -, backs⟩ := PeerSet.ensure_backs ensured
        rw [h.coherent.enabled] at backs
        refine ⟨coherent, fun _ => clean, fun other there family enabled => ?_⟩
        cases there
        simp [backs family enabled, clean]
      · exact ⟨coherent, h.clean, h.unbacked⟩

theorem Tracked.destroy (h : rule.Tracked base families latest store.contents) :
    (rule.destroy store).state.Tracked base families (some (rule.destroy store).answer)
      (rule.destroy store).store.contents := by
  have coherent := h.coherent.destroy
  have clean : ¬StoppedAtV6 base (some (.ok ())) := by
    simp [StoppedAtV6]
  cases ended : rule.destroy store with
  | mk answer next after =>
      rw [ended] at coherent
      rcases destroy_cases ended with
        ⟨none, rfl, rfl, rfl⟩ | ⟨peers, reached, -, rfl, -, rfl⟩ |
          ⟨error, peers, reached, some, rfl, worked, rfl⟩
      · exact ⟨coherent, fun _ => clean, fun peers there => by simp [none] at there⟩
      · exact ⟨coherent, fun _ => clean, fun other there => (nomatch there)⟩
      · obtain ⟨stop, set, cause, backed, rfl, left⟩ := PeerSet.destroy_stops (by rw [worked])
        rw [worked] at left
        obtain rfl := (h.coherent.present peers some).named stop set backed
        refine ⟨coherent, fun none => (nomatch none), fun other there family enabled => ?_⟩
        cases there
        have before := h.unbacked peers some family enabled
        cases stop with
        | v4 =>
            -- The destroy stopped at once, and both halves are still there.
            have clean : ¬StoppedAtV6 base
                (Option.some (.error (.destroy (Family.setName .v4 base) cause))) := by
              simp [StoppedAtV6, Family.setName_inj]
            cases family <;> simp [left, clean, backed, before]
        | v6 =>
            have stopped : StoppedAtV6 base
                (Option.some (.error (.destroy (Family.setName .v6 base) cause))) := ⟨cause, rfl⟩
            cases family <;> simp [left, stopped, backed]

theorem Tracked.run (h : rule.Tracked base families latest store.contents)
    {events : List (Event Action)} (sole : ∀ event ∈ events, event.Spares base) :
    (Event.run Action.apply events (rule, store)).1.Tracked base families
      (latestDestroy events (rule, store) latest)
      (Event.run Action.apply events (rule, store)).2.contents := by
  induction events generalizing rule store latest with
  | nil => exact h
  | cons event events ih =>
      have later : ∀ event ∈ events, event.Spares base := fun event member =>
        sole event (List.mem_cons_of_mem _ member)
      cases event with
      | act action =>
          cases action with
          | work operation =>
              have coherent := h.coherent.apply (.work operation)
              cases operation with
              | ensure => exact ih h.ensure later
              | addPods pods => exact ih (h.onPeers (addEach_backing _ pods · store) coherent) later
              | deletePod pod => exact ih (h.onPeers (removeAll_backing pod.key · store) coherent) later
              | destroy => exact ih h.destroy later
          | edit change =>
              refine ih ⟨h.coherent.apply (.edit change), ?_, ?_⟩ later
              · cases change <;> exact h.clean
              · cases change <;> exact h.unbacked
      | failOn op => exact ih h later
      | block op set => exact ih h later
      | clearFaults => exact ih h later
      | foreign call =>
          have same := store.submit_half_other (sole _ List.mem_cons_self)
          exact ih ⟨h.coherent.of_half same, h.clean, h.unbacked⟩ later

end Rule

/-- While a rule has a peer set, its match refers to the half of every enabled family,
and each of these halves holds the peer addresses of its family. The exception is the
IPv4 half after a destroy that stopped at the IPv6 half: it is gone. -/
theorem match_refers_to_remaining_sets (rule : Rule) (store : Store) (fresh : rule.peers = none)
    (vacant : ∀ family, Vacant (store.contents.half rule.id.setName family))
    (events : List (Event Rule.Action)) (sole : ∀ event ∈ events, event.Spares rule.id.setName) :
    let (reached, after) := Event.run Rule.Action.apply events (rule, store)
    let stopped := Rule.StoppedAtV6 rule.id.setName (Rule.latestDestroy events (rule, store) none)
    reached.peers ≠ none → ∀ family, rule.families.isEnabled family = true →
      reached.Refers family (family.setName rule.id.setName) ∧
      (family = .v4 ∧ stopped → after.addresses? (family.setName rule.id.setName) = none) ∧
      (¬(family = .v4 ∧ stopped) → after.addresses? (family.setName rule.id.setName) =
        some (reached.peerAddresses.filter (·.family = family))) := by
  have start : rule.Tracked rule.id.setName rule.families none store.contents :=
    ⟨⟨rfl, rfl, fun _ => vacant, fun peers some => absurd some (by simp [fresh])⟩,
      fun _ stopped => (nomatch stopped), fun peers some => absurd some (by simp [fresh])⟩
  have tracked := start.run sole
  generalize Rule.latestDestroy events (rule, store) none = latest at tracked
  generalize Event.run Rule.Action.apply events (rule, store) = ended at tracked
  obtain ⟨reached, after⟩ := ended
  intro present family enabled
  obtain ⟨peers, some⟩ := Option.ne_none_iff_exists'.mp present
  have coherent := tracked.coherent.present peers some
  have missing := tracked.unbacked peers some family enabled
  refine ⟨?_, fun gone => ?_, fun there => ?_⟩
  · rw [← tracked.coherent.enabled] at enabled
    have refers := Rule.refers_of_peers some enabled
    rw [coherent.name] at refers
    exact refers
  · have released := coherent.released family (missing.mpr gone) enabled
    rw [Store.addresses?]
    exact congrArg (Option.map _) released
  · rw [coherent.addresses_eq (there ∘ missing.mp), Rule.peerAddresses, some]

/-- The destroy drops the IPv4 half and is kept from the IPv6 half. -/
def stoppedDestroy : List (Event Rule.Action) :=
  [.act (.work .ensure), .act (.work (.addPods [mappedPod])),
    .block .destroy "ns1.pol1.ingress.0_v6", .act (.work .destroy)]

theorem match_refers_to_remaining_sets_stopped :
    let (reached, after) := Event.run Rule.Action.apply stoppedDestroy (dualRule, {})
    (∀ family, Vacant (({} : Store).contents.half dualRule.id.setName family)) ∧
    (∀ event ∈ stoppedDestroy, event.Spares dualRule.id.setName) ∧ reached.peers ≠ none ∧
    Rule.StoppedAtV6 dualRule.id.setName (Rule.latestDestroy stoppedDestroy (dualRule, {}) none) ∧
    reached.Refers .v4 (Family.setName .v4 dualRule.id.setName) ∧
    after.addresses? (Family.setName .v4 dualRule.id.setName) = none ∧
    after.addresses? (Family.setName .v6 dualRule.id.setName) =
      some (reached.peerAddresses.filter (·.family = .v6)) := by
  have vacant : ∀ family, Vacant (({} : Store).contents.half dualRule.id.setName family) :=
    fun family => .inl (by simp [Contents.half])
  have sole : ∀ event ∈ stoppedDestroy, event.Spares dualRule.id.setName := by
    simp [stoppedDestroy, Event.Spares]
  have present : (Event.run Rule.Action.apply stoppedDestroy (dualRule, {})).1.peers ≠ none := by
    have some : (Event.run Rule.Action.apply stoppedDestroy (dualRule, {})).1.peers.isSome = true := by
      decide +kernel
    exact Option.isSome_iff_ne_none.mp some
  have stopped : Rule.StoppedAtV6 dualRule.id.setName
      (Rule.latestDestroy stoppedDestroy (dualRule, {}) none) :=
    ⟨.failure "ns1.pol1.ingress.0_v6" "blocked", by decide +kernel⟩
  have sets := match_refers_to_remaining_sets dualRule {} rfl vacant stoppedDestroy sole present
  obtain ⟨refers, gone, -⟩ := sets .v4 rfl
  obtain ⟨-, -, left⟩ := sets .v6 rfl
  exact ⟨vacant, sole, present, stopped, refers, gone ⟨rfl, stopped⟩, left (by simp)⟩

/-- The match names a set that does not exist. -/
theorem stopped_destroy_leaves_dangling_reference :
    let (reached, after) := Event.run Rule.Action.apply stoppedDestroy (dualRule, {})
    reached.peers.isSome = true ∧
    reached.addressMatch? = some ("(ip4.src == " ++ braced "$ns1.pol1.ingress.0_v4" ++
      " || ip6.src == " ++ braced "$ns1.pol1.ingress.0_v6" ++ ")") ∧
    after.addresses? "ns1.pol1.ingress.0_v4" = none := by
  decide +kernel

end PolicyAcl
