import PolicyAcl.Proofs.Bookkeeping
import PolicyAcl.Proofs.FirstSeen

/-! What additions that all succeed leave behind: the same owners and the same contents of the
store, whatever order they are made in and however often. Two pods of one key with the same
addresses are told apart by the order in which the addresses were first seen, but nothing that
is made of them is. -/
namespace PolicyAcl

open Store (Contents)

namespace Store.Contents

/-- A set is in the store and has an address in it. -/
def Holds (contents : Contents) (set : String) (address : Address) : Prop :=
  ∃ addresses, contents.sets[set]? = some addresses ∧ address ∈ addresses

theorem eq_of_holds {contents other : Contents}
    (sets : ∀ set, set ∈ contents.sets ↔ set ∈ other.sets)
    (holds : ∀ set address, contents.Holds set address ↔ other.Holds set address)
    (creations : contents.creations = other.creations) : contents = other := by
  obtain ⟨left, made⟩ := contents
  obtain ⟨right, made'⟩ := other
  obtain rfl : made = made' := creations
  have same : left = right := by
    refine Std.ExtTreeMap.ext_getElem? fun {set} => ?_
    have both := sets set
    rw [Std.ExtTreeMap.mem_iff_isSome_getElem?, Std.ExtTreeMap.mem_iff_isSome_getElem?] at both
    cases found : left[set]? with
    | none =>
        have absent : right[set]? = none := by simpa [found] using both
        rw [absent]
    | some addresses =>
        obtain ⟨addresses', found'⟩ := Option.isSome_iff_exists.mp (both.mp (by simp [found]))
        have members : addresses = addresses' := Std.ExtTreeSet.ext_mem fun {address} => by
          have held := holds set address
          simpa [Holds, found, found'] using held
        rw [found', members]
  rw [same]

theorem holds_add {contents after : Contents} {set other : String} {address place : Address}
    (performed : contents.perform (.add set [address]) = .ok after) :
    after.Holds other place ↔ contents.Holds other place ∨ (other = set ∧ place = address) := by
  have present : set ∈ contents.sets := by
    by_contra absent
    have missing : error? (contents.perform (.add set [address])) = _ := perform_error? (.inl rfl)
    rw [performed, Call.set, if_neg absent] at missing
    cases missing
  by_cases same : other = set
  · subst same
    obtain ⟨old, found⟩ := Option.isSome_iff_exists.mp
      (Std.ExtTreeMap.mem_iff_isSome_getElem?.mp present)
    simp [Holds, perform_sets performed, Call.set, Call.effect, found, or_comm,
      eq_comm (a := place)]
  · simp [Holds, perform_sets performed, Call.set, same]

end Store.Contents

namespace PeerSet

variable {peers next next' : PeerSet} {address : Address} {pod : PodKey}
  {entries others : List (Address × PodKey)} {contents after after' : Contents}

/-- An address that has no owner yet is among those to be added, and this is the backing set of
its family. -/
def Enters (peers : PeerSet) (entries : List (Address × PodKey)) (set : String)
    (address : Address) : Prop :=
  address ∉ peers.owners ∧ peers.backing.handle? address.family = some set ∧
    ∃ pod, (address, pod) ∈ entries

/-- What additions make of the contents of the store. -/
structure Grown (peers : PeerSet) (entries : List (Address × PodKey)) (contents after : Contents) :
    Prop where
  sets : ∀ set, set ∈ after.sets ↔ set ∈ contents.sets
  holds : ∀ set address, after.Holds set address ↔
    contents.Holds set address ∨ peers.Enters entries set address
  creations : after.creations = contents.creations

theorem addPlan_owners
    (performed : (addPlan (address, pod) peers).perform contents = .ok (next, after))
    (place : Address) : place ∈ next.owners ↔ place = address ∨ place ∈ peers.owners := by
  simp only [mem_owners_iff, ← mem_ownership, addPlan_ownership performed, Set.mem_insert_iff,
    Prod.mk.injEq, exists_or, exists_and_left, exists_eq, and_true]

/-- An address enters with the first addition of it, and with no later one. -/
theorem enters_cons
    (performed : (addPlan (address, pod) peers).perform contents = .ok (next, after))
    (set : String) (place : Address) :
    peers.Enters ((address, pod) :: entries) set place ↔
      peers.Enters [(address, pod)] set place ∨ next.Enters entries set place := by
  simp only [Enters, addPlan_owners performed, addPlan_backing performed]
  by_cases same : place = address
  · simp [same]
  · simp [same]

theorem addPlan_grown
    (performed : (addPlan (address, pod) peers).perform contents = .ok (next, after)) :
    Grown peers [(address, pod)] contents after := by
  rcases addPlan_perform performed with ⟨owners, found, rfl, -⟩ | ⟨set, missing, backed, added, -⟩
  case inl =>
    have owned : address ∈ peers.owners := by
      simp [Std.ExtTreeMap.mem_iff_isSome_getElem?, found]
    have none (set : String) (place : Address) : ¬peers.Enters [(address, pod)] set place := by
      rintro ⟨new, -, other, listed⟩
      obtain ⟨rfl, -⟩ := Prod.mk.inj (List.mem_singleton.mp listed)
      exact new owned
    exact ⟨fun _ => Iff.rfl, fun set place => (or_iff_left (none set place)).symm, rfl⟩
  case inr =>
    have new : address ∉ peers.owners := by
      simp [Std.ExtTreeMap.mem_iff_isSome_getElem?, missing]
    have enters (other : String) (place : Address) :
        peers.Enters [(address, pod)] other place ↔ other = set ∧ place = address := by
      constructor
      · rintro ⟨-, handle, _, listed⟩
        obtain ⟨rfl, -⟩ := Prod.mk.inj (List.mem_singleton.mp listed)
        exact ⟨Option.some.inj (handle.symm.trans backed), rfl⟩
      · rintro ⟨rfl, rfl⟩
        exact ⟨new, backed, pod, List.mem_singleton.mpr rfl⟩
    refine ⟨Contents.perform_mem (.inl rfl) added, fun other place => ?_,
      Contents.perform_creations (.inl rfl) added⟩
    rw [Contents.holds_add added, enters]

theorem performEach_grown
    (performed : Intent.performEach addPlan entries peers contents = .ok (next, after)) :
    Grown peers entries contents after := by
  induction entries generalizing peers contents with
  | nil =>
      cases performed
      exact ⟨fun _ => Iff.rfl, by simp [Enters], rfl⟩
  | cons entry entries ih =>
      rw [Intent.performEach] at performed
      split at performed
      next middle between first =>
        obtain ⟨address, pod⟩ := entry
        have step := addPlan_grown first
        have rest := ih performed
        refine ⟨fun set => (rest.sets set).trans (step.sets set), fun set place => ?_,
          rest.creations.trans step.creations⟩
        rw [rest.holds, step.holds, or_assoc, ← enters_cons first]
      next => cases performed

/-- Additions are worked through to the same end in whatever order they are made. -/
theorem performEach_adds_unordered (same : ∀ entry, entry ∈ entries ↔ entry ∈ others)
    (one : Intent.performEach addPlan entries peers contents = .ok (next, after))
    (two : Intent.performEach addPlan others peers contents = .ok (next', after')) :
    next.owners = next'.owners ∧ after = after' := by
  have grown := performEach_grown one
  have grown' := performEach_grown two
  constructor
  · refine owners_eq_of_ownership ?_
    rw [performEach_adds one, performEach_adds two]
    simp only [same]
  · refine Contents.eq_of_holds (fun set => ?_) (fun set address => ?_) ?_
    · rw [grown.sets, grown'.sets]
    · rw [grown.holds, grown'.holds]
      simp only [Enters, same]
    · rw [grown.creations, grown'.creations]

end PeerSet

namespace Rule

variable {rule next next' : Rule} {store after after' : Store} {pods pods' : List Pod}

/-- Pods that contribute the same make the same of a rule and of the contents of the store. -/
theorem addPods_unordered
    (same : ∀ entry, entry ∈ contributions rule.families pods ↔
      entry ∈ contributions rule.families pods')
    (one : rule.addPods pods store = ⟨.ok (), next, after⟩)
    (two : rule.addPods pods' store = ⟨.ok (), next', after'⟩) :
    next = next' ∧ after.contents = after'.contents := by
  rcases onPeers_cases one with ⟨-, failed, -⟩ | ⟨peers, reached, some, worked, rfl⟩
  · cases failed
  rcases onPeers_cases two with ⟨-, failed, -⟩ | ⟨peers', reached', some', worked', rfl⟩
  · cases failed
  obtain rfl : peers = peers' := Option.some.inj (some.symm.trans some')
  have rest : reached = { peers with owners := reached.owners } := by
    simpa only [worked] using addEach_rest rule.families pods peers store
  have rest' : reached' = { peers with owners := reached'.owners } := by
    simpa only [worked'] using addEach_rest rule.families pods' peers store
  rw [addEach_eq] at worked worked'
  obtain ⟨owners, contents⟩ := PeerSet.performEach_adds_unordered same (Intent.each_done worked)
    (Intent.each_done worked')
  exact ⟨by rw [rest, rest', owners], contents⟩

end Rule

/-- A pod keeps each of its addresses at the first place, in the order of these places. Doing so
again changes nothing, nor does a repeat. Two pods are the same if they have the same key and the
same list; with the same addresses in another order they are not, but if both can be added to a
rule, the same is made of it and of the contents of the store. -/
theorem pod_keeps_first_occurrences (key : PodKey) (addresses : List Address) :
    FirstSeen addresses (Pod.ofAddresses key addresses).addresses ∧
    Pod.ofAddresses key (Pod.ofAddresses key addresses).addresses = Pod.ofAddresses key addresses ∧
    (∀ front address back, address ∈ front →
      Pod.ofAddresses key (front ++ address :: back) = Pod.ofAddresses key (front ++ back)) ∧
    (∀ other others, Pod.ofAddresses key addresses = Pod.ofAddresses other others ↔
      key = other ∧
        (Pod.ofAddresses key addresses).addresses = (Pod.ofAddresses other others).addresses) ∧
    ∀ others, (∀ address, address ∈ addresses ↔ address ∈ others) →
      (Pod.ofAddresses key addresses = Pod.ofAddresses key others ↔
        ∀ earlier later,
          SeenBefore addresses earlier later ↔ SeenBefore others earlier later) ∧
      ∀ (rule : Rule) (store : Store),
        (rule.addPods [Pod.ofAddresses key addresses] store).answer = .ok () →
        (rule.addPods [Pod.ofAddresses key others] store).answer = .ok () →
          (rule.addPods [Pod.ofAddresses key addresses] store).state =
              (rule.addPods [Pod.ofAddresses key others] store).state ∧
            (rule.addPods [Pod.ofAddresses key addresses] store).store.contents =
              (rule.addPods [Pod.ofAddresses key others] store).store.contents := by
  refine ⟨firstSeen_eraseDups addresses, Pod.ofAddresses_eraseDups key addresses,
    fun front address back seen => ?repeated, fun other others => Pod.ofAddresses_eq_iff,
    fun others same => ⟨?order, fun rule store added added' => ?unordered⟩⟩
  case repeated => simp only [Pod.ofAddresses, eraseDups_seen seen]
  case order =>
    rw [Pod.ofAddresses_eq_iff, eraseDups_eq_iff, and_iff_right rfl, and_iff_right same]
  case unordered =>
    have contributed (entry : Address × PodKey) :
        entry ∈ Rule.contributions rule.families [Pod.ofAddresses key addresses] ↔
          entry ∈ Rule.contributions rule.families [Pod.ofAddresses key others] := by
      simp [Rule.mem_contributions, Pod.ofAddresses, same]
    exact Rule.addPods_unordered contributed (by rw [← added]) (by rw [← added'])

/-- The addresses of the pod with the mapped address, the last one first. -/
def turnedPod : Pod :=
  .ofAddresses mappedPod.key [.v6 ⟨0, 0, 0, 0, 0, 0xffff, 0x0a00, 0x0001⟩, .v4 ⟨10, 0, 0, 1⟩,
    .v6 ⟨0, 0, 0, 0, 0, 0xffff, 0x0a00, 0x0001⟩]

theorem pod_keeps_first_occurrences_turned :
    let ensured := dualRule.ensurePeers {}
    (∀ address, address ∈ mappedPod.addresses ↔ address ∈ turnedPod.addresses) ∧
    turnedPod.addresses = mappedPod.addresses.reverse ∧ mappedPod ≠ turnedPod ∧
    (ensured.state.addPods [mappedPod] ensured.store).answer = .ok () ∧
    (ensured.state.addPods [turnedPod] ensured.store).answer = .ok () ∧
    (ensured.state.addPods [mappedPod] ensured.store).state =
      (ensured.state.addPods [turnedPod] ensured.store).state ∧
    (ensured.state.addPods [mappedPod] ensured.store).store.contents =
      (ensured.state.addPods [turnedPod] ensured.store).store.contents := by
  intro ensured
  have reversed : turnedPod.addresses = mappedPod.addresses.reverse := by decide +kernel
  have same : ∀ address, address ∈ mappedPod.addresses ↔ address ∈ turnedPod.addresses := by
    simp [reversed]
  have added : (ensured.state.addPods [mappedPod] ensured.store).answer = .ok () := by
    decide +kernel
  have turned : (ensured.state.addPods [turnedPod] ensured.store).answer = .ok () := by
    decide +kernel
  obtain ⟨-, -, -, -, unordered⟩ :=
    pod_keeps_first_occurrences mappedPod.key mappedPod.addresses
  obtain ⟨-, ends⟩ := unordered turnedPod.addresses same
  rw [mappedPod.ofAddresses_addresses] at ends
  exact ⟨same, reversed, by decide +kernel, added, turned, ends _ _ added turned⟩

end PolicyAcl
