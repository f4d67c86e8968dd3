import PolicyAcl.Proofs.Coherence

/-! Sessions of one rule or one peer set that nobody else's calls get in the way of:
the backing sets hold the owned addresses at every moment. -/
namespace PolicyAcl

open Store (Contents)

namespace Address

theorem rank_lt_of_families {lower upper : Address} (first : lower.family = .v4)
    (second : upper.family = .v6) : lower.rank < upper.rank := by
  cases lower with
  | v6 groups => cases first
  | v4 octets =>
      cases upper with
      | v4 octets => cases second
      | v6 groups =>
          have small := octets.value_lt
          simp only [rank]
          omega

/-- Addresses in order are the IPv4 addresses followed by the IPv6 addresses. -/
theorem Sorted.split {addresses : List Address} (sorted : Sorted addresses) :
    addresses = addresses.filter (·.family = .v4) ++ addresses.filter (·.family = .v6) := by
  have halves : Sorted (addresses.filter (·.family = .v4) ++ addresses.filter (·.family = .v6)) := by
    refine List.pairwise_append.mpr ⟨sorted.filter _, sorted.filter _, ?_⟩
    intro lower first upper second
    exact rank_lt_of_families (by simpa using (List.mem_filter.mp first).2)
      (by simpa using (List.mem_filter.mp second).2)
  refine sorted.eq_of_mem_iff halves fun address => ?_
  cases family : address.family <;> simp [family]

end Address

namespace PeerSet

variable {base : String} {families : Families} {peers : PeerSet} {store : Store}

theorem Coherent.addresses_eq (h : peers.Coherent base families store.contents) {family : Family}
    (backed : peers.backing.handle? family ≠ none) :
    store.addresses? (family.setName base) =
      some (peers.addresses.filter (·.family = family)) := by
  have half : store.contents.sets[family.setName base]? = some (peers.members family) :=
    h.backed family backed
  rw [Store.addresses?, half, Option.map_some, members_toList]

theorem Coherent.addresses_split (h : peers.Coherent base families store.contents)
    (backed : ∀ family, families.isEnabled family = true → peers.backing.handle? family ≠ none) :
    peers.addresses =
      families.enabled.flatMap fun family =>
        (store.addresses? (family.setName base)).getD [] := by
  have enabled (family : Family) : families.isEnabled family = true →
      (store.addresses? (family.setName base)).getD [] =
        peers.addresses.filter (·.family = family) := by
    intro enabled
    rw [h.addresses_eq (backed family enabled), Option.getD_some]
  have disabled (family : Family) : families.isEnabled family = false →
      peers.addresses.filter (·.family = family) = [] := by
    intro disabled
    refine List.filter_eq_nil_iff.mpr fun address member => ?_
    have owned := h.owned address (mem_addresses.mp member)
    rintro same
    rw [of_decide_eq_true same, disabled] at owned
    cases owned
  refine peers.addresses_sorted.split.trans ?_
  unfold Families.enabled
  cases v4 : families.isEnabled .v4 <;> cases v6 : families.isEnabled .v6 <;>
    simp [v4, v6, enabled, disabled]

end PeerSet

namespace Rule

open PeerSet (addPlan)

/-- A rule without a peer set has left nothing in its halves. -/
structure Coherent (base : String) (families : Families) (rule : Rule) (contents : Contents) :
    Prop where
  name : rule.id.setName = base
  enabled : rule.families = families
  absent : rule.peers = none → ∀ family, Vacant (contents.half base family)
  present : ∀ peers, rule.peers = some peers → peers.Coherent base families contents

variable {base : String} {families : Families} {rule : Rule} {contents after : Contents}
  {store : Store}

theorem Coherent.of_half (h : rule.Coherent base families contents)
    (same : after.half base = contents.half base) : rule.Coherent base families after where
  name := h.name
  enabled := h.enabled
  absent none := by
    rw [same]
    exact h.absent none
  present peers some := (h.present peers some).of_half same

theorem Coherent.with_peers (h : rule.Coherent base families contents) {peers : PeerSet}
    (coherent : peers.Coherent base families after) :
    { rule with peers := some peers }.Coherent base families after where
  name := h.name
  enabled := h.enabled
  absent none := (nomatch none)
  present _ some := Option.some.inj some ▸ coherent

theorem Coherent.without_peers (h : rule.Coherent base families contents)
    (vacant : ∀ family, Vacant (after.half base family)) :
    { rule with peers := none }.Coherent base families after where
  name := h.name
  enabled := h.enabled
  absent _ := vacant
  present _ some := (nomatch some)

theorem Coherent.onPeers (h : rule.Coherent base families store.contents)
    {work : PeerSet → Store → Outcome PeerSet Unit}
    (step : ∀ peers, peers.Coherent base families store.contents →
      (work peers store).state.Coherent base families (work peers store).store.contents) :
    (rule.onPeers work store).state.Coherent base families
      (rule.onPeers work store).store.contents := by
  cases ended : rule.onPeers work store with
  | mk answer next after =>
      rcases onPeers_cases ended with ⟨-, -, rfl, rfl⟩ | ⟨peers, reached, some, worked, rfl⟩
      · exact h
      · have coherent := step peers (h.present peers some)
        rw [worked] at coherent
        exact h.with_peers coherent

theorem Coherent.ensure (h : rule.Coherent base families store.contents) :
    (rule.ensurePeers store).state.Coherent base families
      (rule.ensurePeers store).store.contents := by
  obtain ⟨rfl, rfl, absent, present⟩ := h
  cases ended : rule.ensurePeers store with
  | mk answer next after =>
      rcases ensurePeers_cases ended with
        ⟨-, -, rfl, rfl⟩ | ⟨peers, none, -, ensured, rfl⟩ | ⟨error, none, -, failed, rfl⟩
      · exact ⟨rfl, rfl, absent, present⟩
      · have coherent := (PeerSet.ensure_coherent rule.families store (absent none)).1 _ _ ensured
        exact Coherent.with_peers ⟨rfl, rfl, absent, present⟩ coherent
      · have vacant := (PeerSet.ensure_coherent next.families store (absent none)).2 _ _ failed
        exact ⟨rfl, rfl, fun _ => vacant, fun peers some => absurd some (by simp [none])⟩

theorem Coherent.destroy (h : rule.Coherent base families store.contents) :
    (rule.destroy store).state.Coherent base families (rule.destroy store).store.contents := by
  cases ended : rule.destroy store with
  | mk answer next after =>
      rcases destroy_cases ended with
        ⟨-, -, rfl, rfl⟩ | ⟨peers, reached, some, -, worked, rfl⟩ |
          ⟨error, peers, reached, some, -, worked, rfl⟩
      · exact h
      · have coherent := (h.present peers some).destroyAll
        rw [worked] at coherent
        refine h.without_peers fun family => coherent.vacant family ?_
        have released := PeerSet.destroy_releases (by rw [worked]) family
        rw [worked] at released
        exact released
      · have coherent := (h.present peers some).destroyAll
        rw [worked] at coherent
        exact h.with_peers coherent

theorem Coherent.apply (h : rule.Coherent base families store.contents) (action : Action) :
    (action.apply rule store).1.Coherent base families (action.apply rule store).2.contents := by
  cases action with
  | work operation =>
      cases operation with
      | ensure => exact h.ensure
      | addPods pods =>
          refine h.onPeers fun peers coherent => ?_
          rw [addEach_eq]
          exact coherent.addEach _
      | deletePod pod => exact h.onPeers fun peers coherent => coherent.removeAll pod.key
      | destroy => exact h.destroy
  | edit change => cases change <;> exact ⟨h.name, h.enabled, h.absent, h.present⟩

theorem Coherent.direct (h : rule.Coherent base families store.contents)
    (operation : PeerSet.Operation) :
    (rule.direct operation store).1.Coherent base families
      (rule.direct operation store).2.contents := by
  unfold Rule.direct
  split
  next => exact h
  next peers some => exact h.with_peers ((h.present peers some).apply operation)

theorem Coherent.run (h : rule.Coherent base families store.contents)
    {events : List (Event (Action ⊕ PeerSet.Operation))}
    (sole : ∀ event ∈ events, event.Spares base) :
    (Event.run use events (rule, store)).1.Coherent base families
      (Event.run use events (rule, store)).2.contents := by
  refine Event.run_preserves use (Coherent base families) ?_ ?_ h
  · intro operation rule store coherent
    cases operation with
    | inl action => exact coherent.apply action
    | inr operation => exact coherent.direct operation
  · intro call member rule store coherent
    exact coherent.of_half (store.submit_half_other (sole _ member))

end Rule

theorem PeerSet.Coherent.run {base : String} {families : Families} {peers : PeerSet} {store : Store}
    (h : peers.Coherent base families store.contents) {events : List (Event PeerSet.Operation)}
    (sole : ∀ event ∈ events, event.Spares base) :
    (Event.run PeerSet.use events (peers, store)).1.Coherent base families
      (Event.run PeerSet.use events (peers, store)).2.contents := by
  refine Event.run_preserves PeerSet.use (PeerSet.Coherent base families) ?_ ?_ h
  · intro operation peers store coherent
    exact coherent.apply operation
  · intro call member peers store coherent
    exact coherent.of_half (store.submit_half_other (sole _ member))

/-- Each backing set that a peer set still has a handle on holds exactly the owned
addresses of its family, and while no enabled family lacks its backing set, the
addresses of the peer set are those of its backing sets, IPv4 first. -/
structure PeerSet.Mirrored (base : String) (families : Families) (peers : PeerSet) (store : Store) :
    Prop where
  named : peers.backing.Named base
  holds : ∀ family, peers.backing.handle? family ≠ none →
    ∃ set, store.contents.sets[family.setName base]? = some set ∧
      ∀ address, address ∈ set ↔ address.family = family ∧ ∃ pod, peers.Owns pod address
  ordered : (∀ family, families.isEnabled family = true → peers.backing.handle? family ≠ none) →
    peers.addresses =
      families.enabled.flatMap fun family => (store.addresses? (family.setName base)).getD []

theorem PeerSet.Coherent.mirrored {base : String} {families : Families} {peers : PeerSet}
    {store : Store} (h : peers.Coherent base families store.contents) :
    peers.Mirrored base families store where
  named := h.named
  holds family backed :=
    ⟨peers.members family, h.backed family backed, fun address => by
      rw [mem_members, mem_owners_iff, and_comm]⟩
  ordered := h.addresses_split

/-- The store and the owners never diverge, for the peer set of a rule and for a peer
set of its own, after any session in which nobody else touches their halves. -/
theorem backing_sets_hold_owned_addresses (base : String) (families : Families) (store : Store)
    (vacant : ∀ family, Vacant (store.contents.half base family)) :
    (∀ (rule : Rule) (events : List (Event (Rule.Action ⊕ PeerSet.Operation))),
      rule.id.setName = base → rule.families = families → rule.peers = none →
      (∀ event ∈ events, event.Spares base) →
      ∀ peers, (Event.run Rule.use events (rule, store)).1.peers = some peers →
        (Event.run Rule.use events (rule, store)).1.peerAddresses = peers.addresses ∧
        peers.Mirrored base families (Event.run Rule.use events (rule, store)).2) ∧
    ∀ (start : PeerSet) (after : Store) (events : List (Event PeerSet.Operation)),
      PeerSet.ensure base families store = (.ok start, after) →
      (∀ event ∈ events, event.Spares base) →
      (Event.run PeerSet.use events (start, after)).1.Mirrored base families
        (Event.run PeerSet.use events (start, after)).2 := by
  constructor
  -- A rule starts without a peer set, and coherence says that its halves are vacant.
  · intro rule events name enabled none sole peers some
    have start : rule.Coherent base families store.contents :=
      ⟨name, enabled, fun _ => vacant, fun peers some => absurd some (by simp [none])⟩
    have coherent := start.run sole
    refine ⟨?_, (coherent.present peers some).mirrored⟩
    rw [Rule.peerAddresses, some]
  · intro start after events ensured sole
    have coherent := (PeerSet.ensure_coherent families store vacant).1 start after ensured
    exact (coherent.run sole).mirrored

/-- A pod with an IPv4 address and the IPv6 address that maps it. -/
def mappedPod : Pod :=
  .ofAddresses ⟨"ns1", "pod1"⟩ [.v4 ⟨10, 0, 0, 1⟩, .v6 ⟨0, 0, 0, 0, 0, 0xffff, 0x0a00, 0x0001⟩]

def dualRule : Rule := { id := ⟨.ingress, 0, "ns1", "pol1"⟩, families := .dualStack }

/-- The IPv6 half outlives the IPv4 half when it cannot be destroyed. -/
def halfDestroyed : List (Event (Rule.Action ⊕ PeerSet.Operation)) :=
  [.act (.inl (.work .ensure)), .act (.inl (.work (.addPods [mappedPod]))),
    .foreign (.ensure "ns2_v4"), .block .destroy "ns1.pol1.ingress.0_v6",
    .act (.inl (.work .destroy))]

theorem backing_sets_hold_owned_addresses_half_destroyed :
    (∀ family, Vacant (({} : Store).contents.half "ns1.pol1.ingress.0" family)) ∧
    (∀ event ∈ halfDestroyed, event.Spares "ns1.pol1.ingress.0") ∧
    ∃ peers, (Event.run Rule.use halfDestroyed (dualRule, {})).1.peers = some peers ∧
      peers.backing = { v6 := some "ns1.pol1.ingress.0_v6" } ∧
      peers.Mirrored "ns1.pol1.ingress.0" .dualStack
        (Event.run Rule.use halfDestroyed (dualRule, {})).2 ∧
    ∃ start after, PeerSet.ensure "ns1.pol1.ingress.0" .dualStack {} = (.ok start, after) ∧
      (Event.run PeerSet.use [.act .destroy] (start, after)).1.Mirrored "ns1.pol1.ingress.0"
        .dualStack (Event.run PeerSet.use [.act .destroy] (start, after)).2 := by
  have vacant : ∀ family, Vacant (({} : Store).contents.half "ns1.pol1.ingress.0" family) :=
    fun family => .inl (by simp [Store.Contents.half])
  have sole : ∀ event ∈ halfDestroyed, event.Spares "ns1.pol1.ingress.0" := by
    simp [halfDestroyed, Event.Spares, Store.Call.set, Family.setName]
    intro family
    cases family <;> decide
  have backing : (Event.run Rule.use halfDestroyed (dualRule, {})).1.peers.map (·.backing) =
      some { v6 := some "ns1.pol1.ingress.0_v6" } := by decide +kernel
  obtain ⟨peers, present, half⟩ := Option.map_eq_some_iff.mp backing
  obtain ⟨rules, sets⟩ := backing_sets_hold_owned_addresses "ns1.pol1.ingress.0" .dualStack {} vacant
  refine ⟨vacant, sole, peers, present, half,
    (rules dualRule halfDestroyed ?_ rfl rfl sole peers present).2, ?_⟩
  · decide +kernel
  · refine ⟨_, _, rfl, sets _ _ [.act .destroy] rfl ?_⟩
    simp [Event.Spares]

end PolicyAcl
