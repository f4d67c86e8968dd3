import PolicyAcl.Proofs.Bookkeeping
import PolicyAcl.Proofs.Refinement

/-! Events of different pods commute. What a pod contributes depends on the events of
that pod alone, and while nothing is refused, the contributions of all pods determine
the owners and the backing sets, whichever event it was that called the store. -/
namespace PolicyAcl

open Store (Call Contents)

namespace PeerSet

section
variable {base : String} {families : Families} {start peers other next : PeerSet}
  {before contents after : Contents} {address : Address} {pod : PodKey}

/-- The addresses that a pod contributes. -/
def held (peers : PeerSet) (pod : PodKey) : Set Address := {address | peers.Owns pod address}

@[simp] theorem mem_held : address ∈ peers.held pod ↔ peers.Owns pod address := Iff.rfl

theorem ownership_eq_of_held (same : ∀ pod, peers.held pod = other.held pod) :
    peers.ownership = other.ownership := by
  ext ⟨address, pod⟩
  rw [mem_ownership, mem_ownership, ← mem_held, same, mem_held]

/-- How far changes of owners have led from a start that has a backing set for each
enabled family, if nothing was refused. -/
structure Serving (base : String) (families : Families) (start : PeerSet) (before : Contents)
    (peers : PeerSet) (contents : Contents) : Prop where
  name : peers.name = start.name
  backing : peers.backing = start.backing
  named : peers.backing.Named base
  backed : ∀ family, families.isEnabled family = true → peers.backing.handle? family ≠ none
  owned : ∀ address ∈ peers.owners, families.isEnabled address.family = true
  holds : ∀ family, peers.backing.handle? family ≠ none →
    contents.half base family = some (peers.members family)
  elsewhere : ∀ set, (∀ family, peers.backing.handle? family ≠ some set) →
    contents.sets[set]? = before.sets[set]?
  creations : contents.creations = before.creations

theorem Mirrored.serving {store : Store} (mirrored : peers.Mirrored base families store)
    (backed : ∀ family, families.isEnabled family = true → peers.backing.handle? family ≠ none) :
    Serving base families peers store.contents peers store.contents where
  name := rfl
  backing := rfl
  named := mirrored.named
  backed := backed
  owned address member := by
    rw [← mem_addresses, mirrored.ordered backed] at member
    obtain ⟨family, enabled, listed⟩ := List.mem_flatMap.mp member
    have enabled := Families.mem_enabled.mp enabled
    obtain ⟨set, half, inside⟩ := mirrored.holds family (backed family enabled)
    rw [Store.addresses?, half, Option.map_some, Option.getD_some, Std.ExtTreeSet.mem_toList] at listed
    rwa [((inside address).mp listed).1]
  holds family handle := by
    obtain ⟨set, half, inside⟩ := mirrored.holds family handle
    have same : set = peers.members family := Std.ExtTreeSet.ext_mem fun address => by
      rw [inside, mem_members, mem_owners_iff, and_comm]
    rw [← same]
    exact half
  elsewhere _ _ := rfl
  creations := rfl

/-- The owners determine the rest. -/
theorem Serving.determined (one : Serving base families start before peers contents)
    (two : Serving base families start before other after)
    (same : peers.ownership = other.ownership) : peers = other ∧ contents = after := by
  have owners : peers.owners = other.owners := owners_eq_of_ownership same
  have equal : peers = other := by
    have name := one.name.trans two.name.symm
    have backing := one.backing.trans two.backing.symm
    cases peers
    cases other
    congr
  subst equal
  have sets : contents.sets = after.sets := by
    refine Std.ExtTreeMap.ext_getElem? fun {set} => ?_
    by_cases handled : ∃ family, peers.backing.handle? family = some set
    · obtain ⟨family, handle⟩ := handled
      have present : peers.backing.handle? family ≠ none := by simp [handle]
      rw [one.named family set handle]
      exact (one.holds family present).trans (two.holds family present).symm
    · have unhandled : ∀ family, peers.backing.handle? family ≠ some set :=
        fun family handle => handled ⟨family, handle⟩
      rw [one.elsewhere set unhandled, two.elsewhere set unhandled]
  refine ⟨rfl, ?_⟩
  have creations := one.creations.trans two.creations.symm
  cases contents
  cases after
  congr

theorem Serving.same_addresses (h : Serving base families start before peers contents)
    {changed : Std.ExtTreeMap Address Owners}
    (same : ∀ address, address ∈ changed ↔ address ∈ peers.owners) :
    Serving base families start before { peers with owners := changed } contents where
  name := h.name
  backing := h.backing
  named := h.named
  backed := h.backed
  owned address member := h.owned address ((same address).mp member)
  holds family handle :=
    (h.holds family handle).trans (congrArg some (congrFun (members_congr same) family).symm)
  elsewhere := h.elsewhere
  creations := h.creations

/-- A call on the backing set of a family changes it together with the owned addresses
of that family. -/
theorem Serving.update (h : Serving base families start before peers contents)
    {changed : Std.ExtTreeMap Address Owners} {family : Family} {new : AddressSet} {call : Call}
    (updates : call.op = .add ∨ call.op = .delete)
    (handle : peers.backing.handle? family = some call.set)
    (performed : contents.perform call = .ok after)
    (effect : call.effect (some (peers.members family)) = some new)
    (members : { peers with owners := changed }.members = Function.update peers.members family new)
    (owned : ∀ address : Address, address ∈ changed → families.isEnabled address.family = true) :
    Serving base families start before { peers with owners := changed } after where
  name := h.name
  backing := h.backing
  named := h.named
  backed := h.backed
  owned := owned
  holds := by
    refine holds_update h.holds members ?_
    rw [Contents.half_perform performed (h.named family _ handle),
      h.holds family (by simp [handle]), effect]
  elsewhere set unhandled := by
    have distinct : set ≠ call.set := fun same => unhandled family (same ▸ handle)
    rw [Contents.perform_sets performed, if_neg distinct]
    exact h.elsewhere set unhandled
  creations := (Contents.perform_creations updates performed).trans h.creations

theorem Serving.performs (h : Serving base families start before peers contents) (call : Call)
    {family : Family} (updates : call.op = .add ∨ call.op = .delete)
    (handle : peers.backing.handle? family = some call.set) :
    ∃ after, contents.perform call = .ok after := by
  have half : contents.sets[family.setName base]? = some (peers.members family) :=
    h.holds family (by simp [handle])
  refine Contents.perform_of_mem updates ?_
  rw [h.named family _ handle, Std.ExtTreeMap.mem_iff_isSome_getElem?, half]
  rfl

theorem Serving.add (h : Serving base families start before peers contents)
    (enabled : families.isEnabled address.family = true) :
    ∃ next after, (addPlan (address, pod) peers).perform contents = .ok (next, after) ∧
      Serving base families start before next after := by
  cases found : peers.owners[address]? with
  | some owners =>
      rw [addPlan_owned found]
      exact ⟨_, contents, rfl, h.same_addresses (mem_insert_of_found found _)⟩
  | none =>
      obtain ⟨set, handle⟩ := Option.ne_none_iff_exists'.mp (h.backed address.family enabled)
      obtain ⟨after, performed⟩ :=
        h.performs (.add set [address]) (.inl rfl) handle
      rw [addPlan_first found handle]
      refine ⟨_, after, Intent.perform_submit.mpr ⟨rfl, performed⟩,
        h.update (.inl rfl) handle performed rfl (peers.members_insert address _) ?_⟩
      intro other member
      simp only [Std.ExtTreeMap.mem_insert, Std.LawfulEqCmp.compare_eq_iff_eq] at member
      rcases member with rfl | member
      · exact enabled
      · exact h.owned other member

theorem Serving.remove (h : Serving base families start before peers contents) :
    ∃ next after, (removePlan pod address peers).perform contents = .ok (next, after) ∧
      Serving base families start before next after := by
  by_cases owns : peers.Owns pod address
  · obtain ⟨owners, found, owner⟩ := owns
    by_cases last : owners.IsLast pod
    · have enabled := h.owned address (mem_of_found found)
      obtain ⟨set, handle⟩ := Option.ne_none_iff_exists'.mp (h.backed address.family enabled)
      obtain ⟨after, performed⟩ :=
        h.performs (.delete set [address]) (.inr rfl) handle
      rw [removePlan_last found owner last handle]
      refine ⟨_, after, Intent.perform_submit.mpr ⟨rfl, performed⟩,
        h.update (.inr rfl) handle performed rfl (peers.members_erase address) ?_⟩
      intro other member
      exact h.owned other (Std.ExtTreeMap.mem_of_mem_erase member)
    · rw [removePlan_shared found owner last]
      exact ⟨_, contents, rfl, h.same_addresses (mem_insert_of_found found _)⟩
  · rw [removePlan_of_stranger owns]
    exact ⟨peers, contents, rfl, h⟩

theorem Serving.addPod {store : Store}
    (h : Serving base families start before peers store.contents) (faultless : store.faults = {})
    (pod : Pod) :
    ∃ next after,
      Intent.each addPlan (Rule.contributions families [pod]) peers store = ⟨.ok (), next, after⟩ ∧
      after.faults = {} ∧ Serving base families start before next after.contents ∧
      ∀ other, next.held other =
        if other = pod.key then
          peers.held other ∪ {address | address ∈ pod.addresses ∧ families.isEnabled address.family = true}
        else peers.held other := by
  have step : ∀ entry ∈ Rule.contributions families [pod], ∀ peers contents,
      Serving base families start before peers contents →
      ∃ next after, (addPlan entry peers).perform contents = .ok (next, after) ∧
        Serving base families start before next after := by
    rintro ⟨address, owner⟩ member peers contents serving
    obtain ⟨_, -, -, -, enabled⟩ := Rule.mem_contributions.mp member
    exact serving.add enabled
  obtain ⟨next, contents, performed, serving⟩ :=
    Intent.performEach_succeeds (Serving base families start before) step h
  obtain ⟨after, worked, rfl, kept⟩ := Intent.each_of_performEach faultless performed
  refine ⟨next, after, worked, kept, serving, fun other => ?_⟩
  ext address
  rw [mem_held, ← mem_ownership, performEach_adds performed]
  by_cases own : other = pod.key
  · simp [Rule.mem_contributions, own]
  · simp [Rule.mem_contributions, own, Ne.symm own]

theorem Serving.removeAll {store : Store}
    (h : Serving base families start before peers store.contents) (faultless : store.faults = {})
    (pod : PodKey) :
    ∃ next after, peers.removeAll pod store = ⟨.ok (), next, after⟩ ∧ after.faults = {} ∧
      Serving base families start before next after.contents ∧
      ∀ other, next.held other = if other = pod then ∅ else peers.held other := by
  have step : ∀ address ∈ peers.ownedBy pod, ∀ peers contents,
      Serving base families start before peers contents →
      ∃ next after, (removePlan pod address peers).perform contents = .ok (next, after) ∧
        Serving base families start before next after :=
    fun _ _ _ _ serving => serving.remove
  obtain ⟨next, contents, performed, serving⟩ :=
    Intent.performEach_succeeds (Serving base families start before) step h
  obtain ⟨after, worked, rfl, kept⟩ := Intent.each_of_performEach faultless performed
  refine ⟨next, after, by rw [PeerSet.removeAll, removeEach_eq, worked], kept, serving,
    fun other => ?_⟩
  ext address
  rw [mem_held, ← mem_ownership, performEach_removes performed]
  by_cases own : other = pod
  · simp [mem_ownedBy, own]
  · simp [own]

end

end PeerSet

/-- What happens to a pod: it is added with the addresses it has now, or it is gone. -/
inductive PodEvent where
  | add (pod : Pod)
  | delete (pod : Pod)
deriving DecidableEq

namespace PodEvent

def key : PodEvent → PodKey
  | .add pod => pod.key
  | .delete pod => pod.key

def operation : PodEvent → Rule.Operation
  | .add pod => .addPods [pod]
  | .delete pod => .deletePod pod

/-- Events one after the other, with the answer to each. -/
def run : List PodEvent → Rule → Store → List (Except PeerError Unit) × Rule × Store
  | [], rule, store => ([], rule, store)
  | event :: events, rule, store =>
    let outcome := event.operation.apply rule store
    let (answers, last) := run events outcome.state outcome.store
    (outcome.answer :: answers, last)

/-- The events of all pods in one order that keeps the order of each pod's own. -/
def Interleaves (streams : PodKey → List PodEvent) (events : List PodEvent) : Prop :=
  ∀ pod, events.filter (·.key = pod) = streams pod

/-- What an event makes of the addresses that its pod contributes. -/
def hold (families : Families) : PodEvent → Set Address → Set Address
  | .add pod, held =>
    held ∪ {address | address ∈ pod.addresses ∧ families.isEnabled address.family = true}
  | .delete _, _ => ∅

section
variable {base : String} {start peers : PeerSet} {before : Contents} {rule : Rule} {store : Store}

open PeerSet (Serving)

theorem serves (event : PodEvent) (placed : rule.peers = some peers)
    (h : Serving base rule.families start before peers store.contents)
    (faultless : store.faults = {}) :
    ∃ next after,
      event.operation.apply rule store = ⟨.ok (), { rule with peers := some next }, after⟩ ∧
      after.faults = {} ∧ Serving base rule.families start before next after.contents ∧
      ∀ pod, next.held pod =
        if pod = event.key then event.hold rule.families (peers.held pod) else peers.held pod := by
  cases event with
  | add pod =>
      obtain ⟨next, after, worked, kept, serving, held⟩ := h.addPod faultless pod
      refine ⟨next, after, ?_, kept, serving, held⟩
      simp only [operation, Rule.Operation.apply, Rule.addPods, Rule.onPeers, placed,
        Rule.addEach_eq, worked]
  | delete pod =>
      obtain ⟨next, after, worked, kept, serving, held⟩ := h.removeAll faultless pod.key
      refine ⟨next, after, ?_, kept, serving, held⟩
      simp only [operation, Rule.Operation.apply, Rule.deletePod, Rule.onPeers, placed, worked]

theorem run_serves (events : List PodEvent) (placed : rule.peers = some peers)
    (h : Serving base rule.families start before peers store.contents)
    (faultless : store.faults = {}) :
    ∃ next after,
      run events rule store = (events.map fun _ => .ok (), { rule with peers := some next }, after) ∧
      Serving base rule.families start before next after.contents ∧
      ∀ pod, next.held pod =
        (events.filter (·.key = pod)).foldl (fun held event => event.hold rule.families held)
          (peers.held pod) := by
  induction events generalizing rule peers store with
  | nil =>
      refine ⟨peers, store, ?_, h, fun pod => rfl⟩
      rw [run, ← placed]
      rfl
  | cons event events ih =>
      obtain ⟨middle, between, worked, kept, serving, held⟩ := event.serves placed h faultless
      have placed' : { rule with peers := some middle }.peers = some middle := rfl
      obtain ⟨next, after, ran, served, later⟩ := ih placed' serving kept
      refine ⟨next, after, ?_, served, fun pod => ?_⟩
      · simp only [run, worked, ran, List.map_cons]
      · rw [later, held, List.filter_cons]
        by_cases own : pod = event.key
        · simp [own]
        · simp [own, Ne.symm own]

end

/-- Whatever addresses the pods share, two orders of events that keep the order of
each pod's own events lead to the same owners and the same store. -/
theorem interleavings_agree (base : String) (rule : Rule) (peers : PeerSet) (store : Store)
    (placed : rule.peers = some peers) (coherent : peers.Mirrored base rule.families store)
    (backed : ∀ family, rule.families.isEnabled family = true →
      peers.backing.handle? family ≠ none)
    (faultless : store.faults = {}) (streams : PodKey → List PodEvent) (one other : List PodEvent)
    (interleaves : Interleaves streams one) (interleaves' : Interleaves streams other) :
    let (answers, first, here) := run one rule store
    let (answers', second, there) := run other rule store
    answers = (one.map fun _ => .ok ()) ∧ answers' = (other.map fun _ => .ok ()) ∧
    (∃ last, first.peers = some last ∧ second.peers = some last) ∧
    first.peerAddresses = second.peerAddresses ∧ here.contents = there.contents := by
  have serving := coherent.serving backed
  obtain ⟨last, here, ran, serves, held⟩ := run_serves one placed serving faultless
  obtain ⟨last', there, ran', serves', held'⟩ := run_serves other placed serving faultless
  have same : last.ownership = last'.ownership := PeerSet.ownership_eq_of_held fun pod => by
    rw [held, held', interleaves, interleaves']
  obtain ⟨rfl, contents⟩ := serves.determined serves' same
  rw [ran, ran']
  exact ⟨rfl, rfl, ⟨last, rfl, rfl⟩, rfl, contents⟩

def sharingPod : Pod := .ofAddresses ⟨"ns1", "pod2"⟩ [.v4 ⟨10, 0, 0, 1⟩]

/-- A pod is added and deleted, the last time with the addresses it no longer has. -/
def addedFirst : List PodEvent :=
  [.add mappedPod, .add sharingPod, .delete (.ofAddresses mappedPod.key [])]

def addedLast : List PodEvent :=
  [.add sharingPod, .add mappedPod, .delete (.ofAddresses mappedPod.key [])]

theorem interleavings_agree_shared :
    let rule := { dualRule with peers := some backedPeers }
    let store := (PeerSet.ensure "ns1" .dualStack {}).2
    let streams := fun pod => addedFirst.filter (·.key = pod)
    Interleaves streams addedFirst ∧ Interleaves streams addedLast ∧
    backedPeers.Mirrored "ns1" .dualStack store ∧
    (run addedLast rule store).2.1.peerAddresses = [.v4 ⟨10, 0, 0, 1⟩] ∧
    (run addedFirst rule store).2.1.peerAddresses = [.v4 ⟨10, 0, 0, 1⟩] ∧
    (run addedFirst rule store).2.2.contents = (run addedLast rule store).2.2.contents := by
  have interleaves : Interleaves (fun pod => addedFirst.filter (·.key = pod)) addedLast := by
    intro pod
    by_cases first : mappedPod.key = pod
    · subst first
      decide +kernel
    · by_cases second : sharingPod.key = pod
      · subst second
        decide +kernel
      · simp [addedFirst, addedLast, key, Pod.ofAddresses, first, second]
  have mirrored : backedPeers.Mirrored "ns1" .dualStack (PeerSet.ensure "ns1" .dualStack {}).2 := by
    refine ((PeerSet.ensure_coherent .dualStack {} fun family => .inl ?_).1 _ _ rfl).mirrored
    simp [Store.Contents.half]
  have backed : ∀ family, Families.isEnabled .dualStack family = true →
      backedPeers.backing.handle? family ≠ none := by
    intro family
    cases family <;> decide
  obtain ⟨-, -, -, addresses, contents⟩ := interleavings_agree "ns1"
    { dualRule with peers := some backedPeers } backedPeers (PeerSet.ensure "ns1" .dualStack {}).2
    rfl mirrored backed rfl (fun pod => addedFirst.filter (·.key = pod)) addedFirst addedLast
    (fun _ => rfl) interleaves
  have last : (run addedLast { dualRule with peers := some backedPeers }
      (PeerSet.ensure "ns1" .dualStack {}).2).2.1.peerAddresses = [.v4 ⟨10, 0, 0, 1⟩] := by
    decide +kernel
  exact ⟨fun _ => rfl, interleaves, mirrored, last, addresses.trans last, contents⟩

end PodEvent

end PolicyAcl
