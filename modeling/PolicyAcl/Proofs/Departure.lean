import PolicyAcl.Proofs.Bookkeeping
import PolicyAcl.Proofs.Reach
import PolicyAcl.Proofs.Refinement

/-! A pod that leaves a rule. Whatever it contributed before, under whichever addresses, is
given up and nothing else is; addresses that no other pod contributes leave the store. -/
namespace PolicyAcl

open Store (Contents)

/-- The set exists and the address is in it. -/
def Store.Holds (store : Store) (set : String) (address : Address) : Prop :=
  ∃ addresses, store.addresses? set = some addresses ∧ address ∈ addresses

theorem Store.holds_iff {store : Store} {set : String} {addresses : AddressSet}
    (found : store.contents.sets[set]? = some addresses) {address : Address} :
    store.Holds set address ↔ address ∈ addresses := by
  simp [Holds, addresses?, found, Std.ExtTreeSet.mem_toList]

theorem Store.holds_congr {store other : Store} {set : String}
    (same : other.contents.sets[set]? = store.contents.sets[set]?) (address : Address) :
    other.Holds set address ↔ store.Holds set address := by
  rw [Holds, Holds, addresses?, addresses?, same]

namespace PeerSet

variable {base : String} {families : Families} {peers left : PeerSet} {pod : PodKey}
  {contents : Contents} {store after : Store} {address : Address}

theorem removeAll_ok (worked : peers.removeAll pod store = ⟨.ok (), left, after⟩) :
    Intent.performEach (removePlan pod) (peers.ownedBy pod) peers store.contents =
      .ok (left, after.contents) := by
  rw [removeAll, removeEach_eq] at worked
  exact Intent.each_done worked

/-- An address that a pod alone owns can only be given up if its family is backed. -/
theorem performEach_removes_backed {next : PeerSet} {final : Contents} {addresses : List Address}
    (performed : Intent.performEach (removePlan pod) addresses peers contents = .ok (next, final))
    (listed : address ∈ addresses) (sole : Ownership.Sole peers.ownership address pod) :
    peers.backing.handle? address.family ≠ none := by
  induction addresses generalizing peers contents with
  | nil => cases listed
  | cons first addresses ih =>
      rw [Intent.performEach] at performed
      split at performed
      next middle between removed =>
        by_cases same : address = first
        · subst same
          intro unbacked
          rw [removePlan_of_sole_unbacked sole.1 sole.2 unbacked] at removed
          cases removed
        · -- What comes first is another address, so this one is still owned by the pod alone.
          have kept (other : PodKey) :
              (address, other) ∈ middle.ownership ↔ (address, other) ∈ peers.ownership := by
            simp [removePlan_ownership removed, same]
          have later := ih performed ((List.mem_cons.mp listed).resolve_left same)
            ⟨(kept pod).mpr sole.1, fun other owns => sole.2 other ((kept other).mp owns)⟩
          rwa [removePlan_backing removed] at later
      next => cases performed

section
variable (worked : peers.removeAll pod store = ⟨.ok (), left, after⟩)
include worked

theorem removeAll_leaves : left = { peers with owners := left.owners } := by
  have rest := peers.removeAll_rest pod store
  rwa [worked] at rest

theorem removeAll_ownership :
    left.ownership = {pair ∈ peers.ownership | pair.2 ≠ pod} := by
  rw [performEach_removes (removeAll_ok worked)]
  ext ⟨address, other⟩
  simp only [Set.mem_sdiff, Set.mem_ofPred_eq, mem_ownedBy, mem_ownership]
  grind

theorem removeAll_owns (other : PodKey) (address : Address) :
    left.Owns other address ↔ peers.Owns other address ∧ other ≠ pod := by
  rw [← mem_ownership, removeAll_ownership worked]
  rfl

theorem removeAll_gone :
    address ∈ peers.owners ∧ address ∉ left.owners ↔ Ownership.Sole peers.ownership address pod := by
  simp only [mem_owners_iff, removeAll_owns worked, Ownership.Sole, mem_ownership]
  grind

/-- Nothing is left to be done. -/
theorem removeAll_again (store : Store) : left.removeAll pod store = ⟨.ok (), left, store⟩ := by
  have none : left.ownedBy pod = [] :=
    List.eq_nil_iff_forall_not_mem.mpr fun address member =>
      ((removeAll_owns worked pod address).mp (mem_ownedBy.mp member)).2 rfl
  rw [removeAll, none, removeEach]

section
variable (coherent : peers.Coherent base families store.contents)
include coherent

theorem removeAll_halves {family : Family} (backed : peers.backing.handle? family ≠ none) :
    store.contents.half base family = some (peers.members family) ∧
      after.contents.half base family = some (left.members family) := by
  have coherent' := coherent.removeAll pod
  rw [worked] at coherent'
  have kept : left.backing.handle? family ≠ none := by
    rwa [removeAll_leaves worked]
  exact ⟨coherent.backed family backed, coherent'.backed family kept⟩

/-- Every set is as it was, or it backs a family and holds what is owned before and after. -/
theorem removeAll_sets (set : String) :
    after.contents.sets[set]? = store.contents.sets[set]? ∨
    ∃ family : Family, set = family.setName base ∧
      store.contents.sets[set]? = some (peers.members family) ∧
      after.contents.sets[set]? = some (left.members family) := by
  by_cases backing : ∃ family, peers.backing.handle? family = some set
  · obtain ⟨family, backed⟩ := backing
    obtain rfl := coherent.named family set backed
    exact .inr ⟨family, rfl, removeAll_halves worked coherent (by simp [backed])⟩
  · have within : peers.Within {set | ∃ family, peers.backing.handle? family = some set} :=
      fun family set backed => ⟨family, backed⟩
    have spared := (removeAll_confined within pod).spares store set backing
    rw [worked] at spared
    exact .inl spared.1

theorem removeAll_leaves_store :
    store.Holds (address.family.setName base) address ∧
        ¬after.Holds (address.family.setName base) address ↔
      Ownership.Sole peers.ownership address pod := by
  constructor
  · rintro ⟨held, dropped⟩
    rcases removeAll_sets worked coherent (address.family.setName base) with
      same | ⟨family, named, before, now⟩
    · exact absurd ((Store.holds_congr same address).mpr held) dropped
    · obtain ⟨rfl, -⟩ := Family.setName_inj.mp named
      rw [Store.holds_iff before, mem_members] at held
      rw [Store.holds_iff now, mem_members] at dropped
      exact (removeAll_gone worked).mp ⟨held.1, fun member => dropped ⟨member, rfl⟩⟩
  · intro sole
    have backed := performEach_removes_backed (removeAll_ok worked) (mem_ownedBy.mpr sole.1) sole
    obtain ⟨before, now⟩ := removeAll_halves worked coherent backed
    obtain ⟨owned, disowned⟩ := (removeAll_gone worked).mpr sole
    rw [Store.holds_iff before, Store.holds_iff now, mem_members, mem_members]
    exact ⟨⟨owned, rfl⟩, fun member => disowned member.1⟩

/-- No set appears or disappears, nothing enters one, and nothing leaves one but an address
of its family. -/
theorem removeAll_keeps_sets (set : String) :
    (after.addresses? set = none ↔ store.addresses? set = none) ∧
    ∀ address, (after.Holds set address → store.Holds set address) ∧
      (store.Holds set address → ¬after.Holds set address →
        set = address.family.setName base) := by
  rcases removeAll_sets worked coherent set with same | ⟨family, rfl, before, now⟩
  · refine ⟨by rw [Store.addresses?, Store.addresses?, same], fun address => ?_⟩
    have alike := Store.holds_congr same address
    exact ⟨alike.mp, fun held dropped => absurd (alike.mpr held) dropped⟩
  · refine ⟨by simp [Store.addresses?, before, now], fun address => ?_⟩
    rw [Store.holds_iff before, Store.holds_iff now, mem_members, mem_members]
    constructor
    · rintro ⟨member, rfl⟩
      obtain ⟨other, owns⟩ := mem_owners_iff.mp member
      exact ⟨mem_owners_iff.mpr ⟨other, ((removeAll_owns worked other address).mp owns).1⟩, rfl⟩
    · rintro ⟨-, rfl⟩ -
      rfl

end

end

end PeerSet

/-- A pod that is deleted owns nothing any more, whatever was said about its addresses, and
what the other pods own is left to them. Exactly the addresses that it owned alone leave the
peer set and the store. To delete it once more takes no store call at all. -/
theorem deleted_pod_leaves_nothing (rule : Rule) (store : Store) (fresh : rule.peers = none)
    (vacant : ∀ family, Vacant (store.contents.half rule.id.setName family))
    (events : List (Event (Rule.Action ⊕ PeerSet.Operation)))
    (sole : ∀ event ∈ events, event.Spares rule.id.setName) :
    let reached := (Event.run Rule.use events (rule, store)).1
    let now := (Event.run Rule.use events (rule, store)).2
    ∀ (peers : PeerSet) (pod : Pod) (next : Rule) (after : Store), reached.peers = some peers →
      reached.deletePod pod now = ⟨.ok (), next, after⟩ →
      ∃ left : PeerSet, next = { reached with peers := some left } ∧
        left = { peers with owners := left.owners } ∧
        (∀ other address, left.Owns other address ↔
          peers.Owns other address ∧ other ≠ pod.key) ∧
        (∀ address, address ∈ peers.addresses ∧ address ∉ left.addresses ↔
          Ownership.Sole peers.ownership address pod.key) ∧
        (∀ address, now.Holds (address.family.setName rule.id.setName) address ∧
            ¬after.Holds (address.family.setName rule.id.setName) address ↔
          Ownership.Sole peers.ownership address pod.key) ∧
        (∀ set, (after.addresses? set = none ↔ now.addresses? set = none) ∧
          ∀ address, (after.Holds set address → now.Holds set address) ∧
            (now.Holds set address → ¬after.Holds set address →
              set = address.family.setName rule.id.setName)) ∧
        ∀ (again : Pod) (store' : Store), again.key = pod.key →
          next.deletePod again store' = ⟨.ok (), next, store'⟩ := by
  have start : rule.Coherent rule.id.setName rule.families store.contents :=
    ⟨rfl, rfl, fun _ => vacant, fun peers some => absurd some (by simp [fresh])⟩
  intro reached now peers pod next after present deleted
  have coherent : peers.Coherent rule.id.setName rule.families now.contents :=
    (start.run sole).present peers present
  obtain ⟨-, refused, -, -⟩ | ⟨same, left, present', worked, rfl⟩ := Rule.onPeers_cases deleted
  · cases refused
  obtain rfl := Option.some.inj (present.symm.trans present')
  refine ⟨left, rfl, PeerSet.removeAll_leaves worked, PeerSet.removeAll_owns worked,
    fun address => ?addresses, fun address => PeerSet.removeAll_leaves_store worked coherent,
    PeerSet.removeAll_keeps_sets worked coherent, fun again store' same => ?again⟩
  case addresses =>
    rw [PeerSet.mem_addresses, PeerSet.mem_addresses, PeerSet.removeAll_gone worked]
  case again =>
    simp only [Rule.deletePod, Rule.onPeers, same, PeerSet.removeAll_again worked]

/-- A pod is added twice under different addresses and shares one of them. Its descriptor has
no address left when it is deleted. -/
def movedPod : List (Event (Rule.Action ⊕ PeerSet.Operation)) :=
  [.act (.inl (.work .ensure)),
    .act (.inl (.work (.addPods [.ofAddresses ⟨"ns1", "pod1"⟩ [.v4 ⟨10, 0, 0, 1⟩, .v4 ⟨10, 0, 0, 2⟩]]))),
    .act (.inl (.work (.addPods [mappedPod, .ofAddresses ⟨"ns1", "pod2"⟩ [.v4 ⟨10, 0, 0, 2⟩]])))]

def gonePod : Pod := .ofAddresses ⟨"ns1", "pod1"⟩ []

theorem deleted_pod_leaves_nothing_moved :
    let deletion := (Event.run Rule.use movedPod (dualRule, {})).1.deletePod gonePod
      (Event.run Rule.use movedPod (dualRule, {})).2
    (∀ family, Vacant (({} : Store).contents.half dualRule.id.setName family)) ∧
    (∀ event ∈ movedPod, event.Spares dualRule.id.setName) ∧ deletion.answer = .ok () ∧
    ∃ peers left : PeerSet, (Event.run Rule.use movedPod (dualRule, {})).1.peers = some peers ∧
      deletion.state.peers = some left ∧ (∀ address, ¬left.Owns gonePod.key address) ∧
      Ownership.Sole peers.ownership (.v4 ⟨10, 0, 0, 1⟩) gonePod.key ∧
      ¬deletion.store.Holds (Family.setName .v4 dualRule.id.setName) (.v4 ⟨10, 0, 0, 1⟩) ∧
      deletion.state.deletePod mappedPod (deletion.store.failOn .delete) =
        ⟨.ok (), deletion.state, deletion.store.failOn .delete⟩ := by
  intro deletion
  have vacant : ∀ family, Vacant (({} : Store).contents.half dualRule.id.setName family) :=
    fun family => .inl (by simp [Contents.half])
  have sole : ∀ event ∈ movedPod, event.Spares dualRule.id.setName := by
    simp [movedPod, Event.Spares]
  have answered : deletion.answer = .ok () := by decide +kernel
  have there : (Event.run Rule.use movedPod (dualRule, {})).1.peers.isSome = true := by
    decide +kernel
  obtain ⟨peers, present⟩ := Option.isSome_iff_exists.mp there
  obtain ⟨left, next, -, owns, -, leaves, -, again⟩ :=
    deleted_pod_leaves_nothing dualRule {} rfl vacant movedPod sole peers gonePod deletion.state
      deletion.store present (by rw [← answered])
  have before : (Event.run Rule.use movedPod (dualRule, {})).2.addresses?
      (Family.setName .v4 dualRule.id.setName) = some [.v4 ⟨10, 0, 0, 1⟩, .v4 ⟨10, 0, 0, 2⟩] := by
    decide +kernel
  have afterwards : deletion.store.addresses? (Family.setName .v4 dualRule.id.setName) =
      some [.v4 ⟨10, 0, 0, 2⟩] := by
    decide +kernel
  have dropped : ¬deletion.store.Holds (Family.setName .v4 dualRule.id.setName)
      (.v4 ⟨10, 0, 0, 1⟩) := by
    rintro ⟨addresses, found, member⟩
    obtain rfl := Option.some.inj (afterwards.symm.trans found)
    revert member
    decide
  refine ⟨vacant, sole, answered, peers, left, present, by rw [next],
    fun address owner => ((owns _ address).mp owner).2 rfl, (leaves (.v4 ⟨10, 0, 0, 1⟩)).mp ⟨?_, dropped⟩,
    dropped, again mappedPod _ rfl⟩
  exact ⟨_, before, by simp⟩

end PolicyAcl
