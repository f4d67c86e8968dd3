import PolicyAcl.Proofs.Bookkeeping
import PolicyAcl.Proofs.Reach

/-! The families that a rule has enabled. The addresses of other families make no difference to
it, and it has none of them. It has a backing set for each of its own as long as no destroy of
its peer set fails; ensuring the peer set again does not bring back a set that is gone. -/
namespace PolicyAcl

/-- A pod without the addresses of families that are not enabled. -/
def Pod.restrict (families : Families) (pod : Pod) : Pod where
  key := pod.key
  addresses := pod.addresses.filter fun address => families.isEnabled address.family
  nodup := pod.nodup.filter _

namespace PeerSet

variable {families : Families} {peers : PeerSet} {store : Store}

/-- All addresses that have owners are of enabled families. -/
def OwnedWithin (families : Families) (peers : PeerSet) : Prop :=
  ∀ pod address, peers.Owns pod address → families.isEnabled address.family = true

/-- Every enabled family has a backing set. -/
def Backed (families : Families) (peers : PeerSet) : Prop :=
  ∀ family, families.isEnabled family = true → peers.backing.handle? family ≠ none

theorem OwnedWithin.of_ownership {next : PeerSet} (owned : peers.OwnedWithin families)
    (fewer : next.ownership ⊆ peers.ownership) : next.OwnedWithin families :=
  fun pod address owns => owned pod address (fewer (mem_ownership.mpr owns))

theorem OwnedWithin.addEach (owned : peers.OwnedWithin families) (pods : List Pod)
    (store : Store) : (Rule.addEach families pods peers store).state.OwnedWithin families := by
  rw [Rule.addEach_eq]
  refine Intent.each_preserves addPlan (fun next _ => next.OwnedWithin families)
    (fun (place, owner) listed state contents next after kept performed => ?_) owned
  intro pod address owns
  rw [← mem_ownership, addPlan_ownership performed] at owns
  rcases Set.mem_insert_iff.mp owns with same | before
  · obtain ⟨rfl, rfl⟩ := Prod.mk.inj same
    obtain ⟨_, -, -, -, enabled⟩ := Rule.mem_contributions.mp listed
    exact enabled
  · exact kept pod address before

theorem OwnedWithin.removeAll (owned : peers.OwnedWithin families) (pod : PodKey)
    (store : Store) : (peers.removeAll pod store).state.OwnedWithin families := by
  rw [PeerSet.removeAll, removeEach_eq]
  refine Intent.each_preserves (removePlan pod) (fun next _ => next.OwnedWithin families)
    (fun address _ state contents next after kept performed => kept.of_ownership ?_) owned
  rw [removePlan_ownership performed]
  exact Set.sdiff_subset

theorem OwnedWithin.destroy (owned : peers.OwnedWithin families) (store : Store) :
    (peers.destroy store).state.OwnedWithin families := by
  rw [destroy_rest]
  exact owned

theorem ownedWithin_of_ensure {base : String} {after : Store}
    (ensured : PeerSet.ensure base families store = (.ok peers, after)) :
    peers.OwnedWithin families := by
  intro pod address owns
  obtain ⟨-, none, -⟩ := ensure_backs ensured
  simp [Owns, none] at owns

theorem Backed.of_backing {next : PeerSet} (backed : peers.Backed families)
    (same : next.backing = peers.backing) : next.Backed families := by
  rw [Backed, same]
  exact backed

/-- Adding fails for want of a backing set only where there is none. -/
theorem unbacked_of_noFamilySet {place : Address} {pod : PodKey} {set : String} {address : Address}
    {next : PeerSet} {after : Store}
    (failed : (addPlan (place, pod) peers).carryOut peers store =
      ⟨.error (.noFamilySet set address), next, after⟩) :
    peers.backing.handle? place.family = none := by
  cases found : peers.owners[place]? with
  | some owners =>
      rw [addPlan_owned found] at failed
      cases failed
  | none =>
      cases handle : peers.backing.handle? place.family with
      | none => rfl
      | some backing =>
          rw [addPlan_first found handle] at failed
          cases answered : store.answer (.add backing [place]) with
          | ok contents =>
              rw [Intent.carryOut_of_ok peers answered] at failed
              cases failed
          | error cause =>
              rw [Intent.carryOut_of_error peers answered] at failed
              cases failed

theorem Backed.addEach_answer (backed : peers.Backed families) (pods : List Pod) (store : Store)
    (set : String) (address : Address) :
    (Rule.addEach families pods peers store).answer ≠ .error (.noFamilySet set address) := by
  intro failed
  rw [Rule.addEach_eq] at failed
  cases ended : Intent.each addPlan (Rule.contributions families pods) peers store with
  | mk answer next after =>
      rw [ended] at failed
      obtain rfl : answer = .error (.noFamilySet set address) := failed
      obtain ⟨done, ⟨place, pod⟩, rest, reached, between, split, worked, stuck⟩ :=
        Intent.each_stops ended
      have listed : (place, pod) ∈ Rule.contributions families pods := by simp [split]
      obtain ⟨_, -, -, -, enabled⟩ := Rule.mem_contributions.mp listed
      have kept : (Intent.each addPlan done peers store).state.backing = peers.backing :=
        Intent.each_preserves addPlan (fun next _ => next.backing = peers.backing)
          (fun entry _ state contents next after same performed =>
            (addPlan_backing performed).trans same) rfl
      rw [worked] at kept
      refine backed place.family enabled ?_
      rw [← kept]
      exact unbacked_of_noFamilySet stuck

end PeerSet

namespace Rule

open PeerSet (Backed OwnedWithin)

variable {families : Families} {rule : Rule} {store : Store} {Q : PeerSet → Prop}

theorem contributions_restrict (families : Families) (pods : List Pod) :
    contributions families (pods.map (Pod.restrict families)) = contributions families pods := by
  simp [contributions, List.flatMap_map, Pod.restrict, List.filter_filter]

/-- Addresses of families that are not enabled make no difference. -/
theorem addPods_restrict (rule : Rule) (pods : List Pod) (store : Store) :
    rule.addPods (pods.map (Pod.restrict rule.families)) store = rule.addPods pods store := by
  have same : addEach rule.families (pods.map (Pod.restrict rule.families)) =
      addEach rule.families pods := by
    funext peers store
    rw [addEach_eq, addEach_eq, contributions_restrict]
  rw [addPods, addPods, same]

/-- A rule has these families enabled, and this holds of its peer set if it has one. -/
structure Holding (families : Families) (Q : PeerSet → Prop) (rule : Rule) : Prop where
  enabled : rule.families = families
  holds : ∀ peers, rule.peers = some peers → Q peers

theorem Holding.operation (h : rule.Holding families Q) {operation : Operation}
    (kept : ∀ peers, (operation.apply rule store).state.peers = some peers → Q peers) :
    (operation.apply rule store).state.Holding families Q := by
  obtain ⟨peers, same⟩ := operation.apply_state rule store
  exact ⟨by rw [same]; exact h.enabled, kept⟩

theorem Holding.edit (h : rule.Holding families Q) (change : Edit) :
    (change.apply rule).Holding families Q := by
  cases change <;> exact ⟨h.enabled, h.holds⟩

theorem Holding.owned (h : rule.Holding families (OwnedWithin families)) (operation : Operation)
    (store : Store) :
    (operation.apply rule store).state.Holding families (OwnedWithin families) := by
  have holds := h.holds
  obtain rfl := h.enabled
  refine h.operation ?_
  cases operation with
  | ensure => exact ensurePeers_keeps holds fun _ _ => PeerSet.ownedWithin_of_ensure
  | addPods pods => exact onPeers_keeps holds fun _ owned => owned.addEach pods store
  | deletePod pod => exact onPeers_keeps holds fun _ owned => owned.removeAll pod.key store
  | destroy => exact destroy_keeps holds fun _ owned => owned.destroy store

theorem Holding.backed (h : rule.Holding families (Backed families)) (operation : Operation)
    (store : Store) (done : operation = .destroy → (rule.destroy store).answer = .ok ()) :
    (operation.apply rule store).state.Holding families (Backed families) := by
  have holds := h.holds
  obtain rfl := h.enabled
  refine h.operation ?_
  cases operation with
  | ensure => exact ensurePeers_keeps holds fun _ _ ensured => (PeerSet.ensure_backs ensured).2.2
  | addPods pods =>
      exact onPeers_keeps holds fun peers backed =>
        backed.of_backing (addEach_backing rule.families pods peers store)
  | deletePod pod =>
      exact onPeers_keeps holds fun peers backed =>
        backed.of_backing (removeAll_backing pod.key peers store)
  | destroy =>
      cases ended : rule.destroy store with
      | mk answer next after =>
          obtain rfl : answer = .ok () := by simpa only [ended] using done rfl
          rw [Operation.apply, ended, destroyed_state ended]
          intro peers there
          cases there

/-- No destroy of a session fails. -/
def DestroysDone : List (Event Action) → Rule × Store → Prop
  | [], _ => True
  | event :: events, (rule, store) =>
    (event = .act (.work .destroy) → (rule.destroy store).answer = .ok ()) ∧
      DestroysDone events (event.apply Action.apply (rule, store))

theorem Holding.run_owned (h : rule.Holding families (OwnedWithin families))
    (events : List (Event Action)) (store : Store) :
    (Event.run Action.apply events (rule, store)).1.Holding families (OwnedWithin families) := by
  refine Event.run_preserves Action.apply
    (fun rule _ => rule.Holding families (OwnedWithin families)) ?_ (fun _ _ _ _ h => h) h
  intro action rule store h
  cases action with
  | work operation => exact h.owned operation store
  | edit change => exact h.edit change

theorem Holding.run_backed (h : rule.Holding families (Backed families))
    {events : List (Event Action)} (done : DestroysDone events (rule, store)) :
    (Event.run Action.apply events (rule, store)).1.Holding families (Backed families) := by
  induction events generalizing rule store with
  | nil => exact h
  | cons event events ih =>
      obtain ⟨first, later⟩ := done
      cases event with
      | act action =>
          cases action with
          | work operation =>
              exact ih (h.backed operation store fun same => first (by rw [same])) later
          | edit change => exact ih (h.edit change) later
      | failOn op => exact ih h later
      | block op set => exact ih h later
      | clearFaults => exact ih h later
      | foreign call => exact ih h later

/-- A rule that has a backing set for every enabled family never lacks one. -/
theorem Holding.addPods_answer (h : rule.Holding families (Backed families)) (pods : List Pod)
    (store : Store) (set : String) (address : Address) :
    (rule.addPods pods store).answer ≠ .error (.noFamilySet set address) := by
  intro failed
  cases added : rule.addPods pods store with
  | mk answer next after =>
      rw [added] at failed
      obtain rfl : answer = .error (.noFamilySet set address) := failed
      rcases onPeers_cases added with ⟨-, error, -⟩ | ⟨peers, left, some, worked, -⟩
      · cases error
      · refine (h.holds peers some).addEach_answer pods store set address ?_
        rw [← h.enabled, worked]

end Rule

/-- A rule does the same with pods whether or not they have addresses of families that it has not
enabled; of those that it adds it records the addresses of enabled families, and it has no others.
If no destroy has failed since it was without a peer set, it never lacks the backing set for an
address that it is to add. -/
theorem disabled_families_have_no_effect (rule : Rule) (store : Store) (fresh : rule.peers = none)
    (events : List (Event Rule.Action)) :
    let reached := (Event.run Rule.Action.apply events (rule, store)).1
    (∀ pods now, reached.addPods (pods.map (Pod.restrict rule.families)) now =
      reached.addPods pods now) ∧
    (∀ pods now, (reached.addPods pods now).answer = .ok () →
      ∃ peers next, reached.peers = some peers ∧
        (reached.addPods pods now).state.peers = some next ∧
        ∀ key address, next.Owns key address ↔ peers.Owns key address ∨
          ∃ pod ∈ pods, pod.key = key ∧ address ∈ pod.addresses ∧
            rule.families.isEnabled address.family = true) ∧
    (∀ address ∈ reached.peerAddresses, rule.families.isEnabled address.family = true) ∧
    ∀ before since, events = before ++ since →
      (Event.run Rule.Action.apply before (rule, store)).1.peers = none →
      Rule.DestroysDone since (Event.run Rule.Action.apply before (rule, store)) →
        ∀ pods now set address,
          (reached.addPods pods now).answer ≠ .error (.noFamilySet set address) := by
  intro reached
  have start (Q : PeerSet → Prop) : rule.Holding rule.families Q :=
    ⟨rfl, fun peers some => nomatch fresh.symm.trans some⟩
  have owned := (start (PeerSet.OwnedWithin rule.families)).run_owned events store
  have same : reached.families = rule.families := owned.enabled
  refine ⟨fun pods now => ?unaffected, fun pods now added => ?recorded,
    fun address member => ?enabled,
    fun before since split unset done pods now set address failed => ?backed⟩
  case unaffected =>
    rw [← same]
    exact reached.addPods_restrict pods now
  case recorded =>
    rw [← same]
    exact Rule.addPods_owns (show reached.addPods pods now = ⟨.ok (), _, _⟩ by rw [← added])
  case enabled =>
    cases present : reached.peers with
    | none => simp [Rule.peerAddresses, present] at member
    | some peers =>
        rw [Rule.peerAddresses, present] at member
        obtain ⟨pod, owns⟩ := PeerSet.mem_owners_iff.mp (PeerSet.mem_addresses.mp member)
        exact owned.holds peers present pod address owns
  case backed =>
    have middle := (start (PeerSet.OwnedWithin rule.families)).run_owned before store
    generalize ended : Event.run Rule.Action.apply before (rule, store) = there at unset done middle
    obtain ⟨early, between⟩ := there
    have backed : reached.Holding rule.families (PeerSet.Backed rule.families) := by
      have none : early.Holding rule.families (PeerSet.Backed rule.families) :=
        ⟨middle.enabled, fun peers some => nomatch unset.symm.trans some⟩
      have last := none.run_backed done
      rwa [← ended, ← Event.run_append, ← split] at last
    exact backed.addPods_answer pods now set address failed

/-- The first destroy fails and the second one does not; then the rule is used anew. -/
def retriedDestroy : List (Event Rule.Action) :=
  [.act (.work .ensure), .failOn .destroy, .act (.work .destroy), .clearFaults,
    .act (.work .destroy)]

def usedAgain : List (Event Rule.Action) :=
  [.act (.work .ensure), .act (.work (.addPods [mappedPod])), .block .add "ns1.pol1.ingress.0_v4"]

theorem disabled_families_have_no_effect_used_again :
    let rule : Rule := { dualRule with families := .ipv4Only }
    let reached := (Event.run Rule.Action.apply (retriedDestroy ++ usedAgain) (rule, {})).1
    rule.peers = none ∧
    (Event.run Rule.Action.apply retriedDestroy (rule, {})).1.peers = none ∧
    Rule.DestroysDone usedAgain (Event.run Rule.Action.apply retriedDestroy (rule, {})) ∧
    reached.peerAddresses = [.v4 ⟨10, 0, 0, 1⟩] ∧
    (∀ address ∈ reached.peerAddresses, rule.families.isEnabled address.family = true) ∧
    (∀ now, reached.addPods [mappedPod.restrict .ipv4Only] now = reached.addPods [mappedPod] now) ∧
    ∀ pods now set address,
      (reached.addPods pods now).answer ≠ .error (.noFamilySet set address) := by
  intro rule reached
  obtain ⟨unaffected, -, enabled, backed⟩ :=
    disabled_families_have_no_effect rule {} rfl (retriedDestroy ++ usedAgain)
  have unset : (Event.run Rule.Action.apply retriedDestroy (rule, {})).1.peers = none := by
    rw [← Option.isNone_iff_eq_none]
    decide +kernel
  have done : Rule.DestroysDone usedAgain
      (Event.run Rule.Action.apply retriedDestroy (rule, {})) := by
    simp [usedAgain, Rule.DestroysDone]
  refine ⟨rfl, unset, done, by decide +kernel, enabled, unaffected [mappedPod], ?_⟩
  exact backed retriedDestroy usedAgain rfl unset done

/-- The destroy drops the IPv4 half, is kept from the other one, and is not repeated. -/
def halfReleasedRule : List (Event Rule.Action) :=
  [.act (.work .ensure), .block .destroy "ns1.pol1.ingress.0_v6", .act (.work .destroy),
    .clearFaults]

/-- An ensure finds the peer set in place and succeeds, but the half that is gone stays away. -/
theorem ensure_does_not_bring_back_half :
    let (reached, after) := Event.run Rule.Action.apply halfReleasedRule (dualRule, {})
    let ensured := reached.ensurePeers after
    ensured.answer = .ok () ∧
    (ensured.state.addPods [mappedPod] ensured.store).answer =
      .error (.noFamilySet "ns1.pol1.ingress.0" (.v4 ⟨10, 0, 0, 1⟩)) := by
  decide +kernel

end PolicyAcl
