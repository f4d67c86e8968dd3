import PolicyAcl.Proofs.Bookkeeping
import PolicyAcl.Proofs.Refinement

/-! Every operation stops at the first store call that fails. Its answer then tells
the kind of the call, the set and the address it was made on, and the store's own
error; what was done before the call stays, and the call itself leaves no trace. -/
namespace PolicyAcl

open Store (Call Entry)

namespace PeerError

/-- An error that no store call is to blame for. -/
def Unasked (error : PeerError) : Prop :=
  (∃ rule, error = .noPeerSet rule) ∨ ∃ set address, error = .noFamilySet set address

/-- The error that tells of a call that failed with this cause. -/
inductive Reports : PeerError → Call → Store.Error → Prop
  | ensure (set : String) (cause : Store.Error) :
      Reports (.ensure set cause) (.ensure set) cause
  | add (set : String) (address : Address) (cause : Store.Error) :
      Reports (.add set address cause) (.add set [address]) cause
  | delete (set : String) (address : Address) (cause : Store.Error) :
      Reports (.delete set address cause) (.delete set [address]) cause
  | destroy (set : String) (cause : Store.Error) :
      Reports (.destroy set cause) (.destroy set) cause

theorem Reports.storeError?_eq {error : PeerError} {call : Call} {cause : Store.Error}
    (h : error.Reports call cause) : error.storeError? = some cause := by
  cases h <;> rfl

theorem storeError?_eq_none {error : PeerError} : error.storeError? = none ↔ error.Unasked := by
  cases error <;> simp [storeError?, Unasked]

end PeerError

section
variable {α β σ : Type} {answer : Except PeerError α} {before after : Store}
  {calls earlier : List Entry}

/-- How an operation has ended that made these calls, the latest first. -/
structure Stopped (calls : List Entry) (answer : Except PeerError α) (after : Store) : Prop where
  succeeds : ∀ done, answer = .ok done → ∀ entry ∈ calls, entry.error = none
  -- The store still gives the error of the failed call, as the call changed nothing.
  stops : ∀ entry ∈ calls, ∀ cause, entry.error = some cause →
    (∃ earlier, calls = entry :: earlier ∧ ∀ other ∈ earlier, other.error = none) ∧
    after.answer entry.call = .error cause ∧
    ∃ error, answer = .error error ∧ error.Reports entry.call cause ∧ error.storeError? = some cause
  unasked : ∀ error, answer = .error error →
    (error.storeError? = none ↔ ∀ entry ∈ calls, entry.error = none) ∧
    (error.storeError? = none ↔ error.Unasked)

/-- An operation on a store has stopped at the first of its calls that failed. -/
def FailStop (before : Store) (answer : Except PeerError α) (after : Store) : Prop :=
  ∃ calls, after.journal = calls ++ before.journal ∧ Stopped calls answer after

theorem Stopped.of_succeeded (succeeded : ∀ entry ∈ calls, entry.error = none)
    (unasked : ∀ error, answer = .error error → error.Unasked) : Stopped calls answer after where
  succeeds _ _ := succeeded
  stops entry member cause failed := by
    rw [succeeded entry member] at failed
    cases failed
  unasked error failed := by
    have none := PeerError.storeError?_eq_none.mpr (unasked error failed)
    exact ⟨iff_of_true none succeeded, PeerError.storeError?_eq_none⟩

theorem Stopped.of_ok (succeeded : ∀ entry ∈ calls, entry.error = none) (done : α) :
    Stopped calls (.ok done : Except PeerError α) after := by
  refine .of_succeeded succeeded ?_
  rintro error ⟨⟩

theorem Stopped.of_failed {entry : Entry} {cause : Store.Error} {error : PeerError}
    (failed : entry.error = some cause) (refused : after.answer entry.call = .error cause)
    (reports : error.Reports entry.call cause) :
    Stopped [entry] (.error error : Except PeerError α) after where
  succeeds _ done := by cases done
  stops other member _ same := by
    obtain rfl := List.mem_singleton.mp member
    obtain rfl := Option.some.inj (failed.symm.trans same)
    exact ⟨⟨[], rfl, by simp⟩, refused, error, rfl, reports, reports.storeError?_eq⟩
  unasked other same := by
    cases same
    refine ⟨iff_of_false ?_ ?_, PeerError.storeError?_eq_none⟩
    · simp [reports.storeError?_eq]
    · intro succeeded
      rw [succeeded entry List.mem_cons_self] at failed
      cases failed

/-- Calls that succeeded before change nothing about how an operation ends. -/
theorem Stopped.after_calls (h : Stopped calls answer after)
    (succeeded : ∀ entry ∈ earlier, entry.error = none) :
    Stopped (calls ++ earlier) answer after where
  succeeds done ok := List.forall_mem_append.mpr ⟨h.succeeds done ok, succeeded⟩
  stops entry member cause failed := by
    rcases List.mem_append.mp member with late | early
    · obtain ⟨⟨rest, split, others⟩, reported⟩ := h.stops entry late cause failed
      refine ⟨⟨rest ++ earlier, ?_, List.forall_mem_append.mpr ⟨others, succeeded⟩⟩, reported⟩
      rw [split, List.cons_append]
    · rw [succeeded entry early] at failed
      cases failed
  unasked error failed := by
    obtain ⟨none, unasked⟩ := h.unasked error failed
    refine ⟨none.trans ?_, unasked⟩
    rw [List.forall_mem_append, and_iff_left succeeded]

theorem FailStop.map (h : FailStop before answer after) (f : α → β) :
    FailStop before (answer.map f) after := by
  obtain ⟨calls, called, stopped⟩ := h
  cases answer with
  | ok done =>
      exact ⟨calls, called, .of_ok (stopped.succeeds done rfl) (f done)⟩
  | error error =>
      -- The answer is the same error, at another type of results.
      refine ⟨calls, called, ?_, ?_, ?_⟩
      · rintro done ⟨⟩
      · intro entry member cause failed
        obtain ⟨split, refused, reported, same, rest⟩ := stopped.stops entry member cause failed
        cases same
        exact ⟨split, refused, error, rfl, rest⟩
      · rintro error ⟨⟩
        exact stopped.unasked error rfl

theorem FailStop.of_uncalled (done : α) : FailStop before (.ok done : Except PeerError α) before :=
  ⟨[], rfl, .of_ok (by simp) done⟩

theorem FailStop.of_unasked {error : PeerError} (unasked : error.Unasked) :
    FailStop before (.error error : Except PeerError α) before := by
  refine ⟨[], rfl, .of_succeeded (by simp) ?_⟩
  rintro error ⟨⟩
  exact unasked

namespace Intent

/-- An intent that tells of its own call when that fails, and blames the store for
nothing else. -/
def Honest : Intent σ → Prop
  | .quiet _ => True
  | .refuse error => error.Unasked
  | .submit call _ complain => ∀ cause, (complain cause).Reports call cause

theorem Honest.carryOut {intent : Intent σ} (honest : intent.Honest) (state : σ) (store : Store) :
    FailStop store (intent.carryOut state store).answer (intent.carryOut state store).store := by
  cases intent with
  | quiet next => exact .of_uncalled false
  | refuse error => exact .of_unasked honest
  | submit call next complain =>
      cases answered : store.answer call with
      | ok contents =>
          rw [carryOut_of_ok state answered]
          exact ⟨[_], rfl, .of_ok (by simp) true⟩
      | error cause =>
          rw [carryOut_of_error state answered]
          exact ⟨[_], rfl, .of_failed rfl answered (honest cause)⟩

theorem each_failStop {plan : α → σ → Intent σ} (honest : ∀ item state, (plan item state).Honest)
    (items : List α) (state : σ) (store : Store) :
    FailStop store (each plan items state store).answer (each plan items state store).store := by
  induction items generalizing state store with
  | nil => exact .of_uncalled ()
  | cons item items ih =>
      have first := (honest item state).carryOut state store
      simp only [each]
      split
      next called next between carried =>
        rw [carried] at first
        obtain ⟨early, called, succeeded⟩ := first
        obtain ⟨late, calledToo, stopped⟩ := ih next between
        refine ⟨late ++ early, ?_, stopped.after_calls (succeeded.succeeds _ rfl)⟩
        rw [calledToo, called, List.append_assoc]
      next error next between carried =>
        rw [carried] at first
        exact first.map fun _ => ()

end Intent

end

namespace PeerSet

theorem addPlan_honest (entry : Address × PodKey) (peers : PeerSet) :
    (addPlan entry peers).Honest := by
  obtain ⟨address, pod⟩ := entry
  cases found : peers.owners[address]? with
  | some owners =>
      rw [addPlan_owned found]
      trivial
  | none =>
      cases handle : peers.backing.handle? address.family with
      | none =>
          rw [addPlan_unbacked found handle]
          exact .inr ⟨_, _, rfl⟩
      | some set =>
          rw [addPlan_first found handle]
          exact fun cause => .add set address cause

theorem removePlan_honest (pod : PodKey) (address : Address) (peers : PeerSet) :
    (removePlan pod address peers).Honest := by
  by_cases owns : peers.Owns pod address
  · obtain ⟨owners, found, owner⟩ := owns
    by_cases last : owners.IsLast pod
    · cases handle : peers.backing.handle? address.family with
      | none =>
          rw [removePlan_unbacked found owner last handle]
          exact .inr ⟨_, _, rfl⟩
      | some set =>
          rw [removePlan_last found owner last handle]
          exact fun cause => .delete set address cause
    · rw [removePlan_shared found owner last]
      trivial
  · rw [removePlan_of_stranger owns]
    trivial

theorem destroyPlan_honest (family : Family) (peers : PeerSet) :
    (destroyPlan family peers).Honest := by
  cases handle : peers.backing.handle? family with
  | none =>
      rw [destroyPlan_released handle]
      trivial
  | some set =>
      rw [destroyPlan_backed handle]
      exact fun cause => .destroy set cause

theorem ensurePlan_honest (name : String) (family : Family) (backing : Backing) :
    (ensurePlan name family backing).Honest :=
  fun cause => .ensure (family.setName name) cause

variable {peers next : PeerSet} {store after : Store} {error : PeerError}

theorem ensure_failStop (name : String) (families : Families) (store : Store) :
    FailStop store (PeerSet.ensure name families store).1 (PeerSet.ensure name families store).2 := by
  have worked := Intent.each_failStop (ensurePlan_honest name) families.enabled {} store
  rw [← ensureEach_eq] at worked
  unfold PeerSet.ensure
  split
  next backing after ended =>
    rw [ended] at worked
    exact worked.map fun _ => ({ name, backing } : PeerSet)
  next error backing after ended =>
    rw [ended] at worked
    exact worked.map fun _ => ({ name, backing } : PeerSet)

theorem removeAll_failStop (pod : PodKey) (peers : PeerSet) (store : Store) :
    FailStop store (peers.removeAll pod store).answer (peers.removeAll pod store).store := by
  rw [removeAll, removeEach_eq]
  exact Intent.each_failStop (removePlan_honest pod) _ peers store

theorem destroy_failStop (peers : PeerSet) (store : Store) :
    FailStop store (peers.destroy store).answer (peers.destroy store).store := by
  rw [destroy_eq]
  exact Intent.each_failStop destroyPlan_honest _ peers store

theorem Operation.failStop (operation : Operation) (peers : PeerSet) (store : Store) :
    FailStop store (operation.apply peers store).answer (operation.apply peers store).store := by
  cases operation with
  | owners change =>
      cases change with
      | add address pod =>
          simp only [Operation.apply, OwnerChange.apply, Outcome.map, addOwner_eq]
          exact ((addPlan_honest (address, pod) peers).carryOut peers store).map some
      | remove address pod =>
          simp only [Operation.apply, OwnerChange.apply, Outcome.map, removeOwner_eq]
          exact ((removePlan_honest pod address peers).carryOut peers store).map some
      | removeAll pod => exact (peers.removeAll_failStop pod store).map fun _ => none
  | destroy => exact (peers.destroy_failStop store).map fun _ => none

theorem addOwner_unchanged {address : Address} {pod : PodKey}
    (failed : peers.addOwner address pod store = ⟨.error error, next, after⟩) :
    next = peers ∧ after.contents = store.contents := by
  rw [addOwner_eq] at failed
  exact Intent.carryOut_error failed

theorem removeOwner_unchanged {address : Address} {pod : PodKey}
    (failed : peers.removeOwner address pod store = ⟨.error error, next, after⟩) :
    next = peers ∧ after.contents = store.contents := by
  rw [removeOwner_eq] at failed
  exact Intent.carryOut_error failed

/-- A removal of all addresses of a pod that fails does so at one of them, and leaves
what the removal of those before it comes to. -/
theorem removeAll_stops {pod : PodKey}
    (failed : peers.removeAll pod store = ⟨.error error, next, after⟩) :
    ∃ done address rest between, peers.ownedBy pod = done ++ address :: rest ∧
      removeEach pod done peers store = ⟨.ok (), next, between⟩ ∧
      next.removeOwner address pod between = ⟨.error error, next, after⟩ ∧
      after.contents = between.contents := by
  rw [removeAll, removeEach_eq] at failed
  obtain ⟨done, address, rest, reached, between, split, worked, stuck⟩ := Intent.each_stops failed
  rw [← removeEach_eq] at worked
  rw [← removeOwner_eq] at stuck
  obtain ⟨rfl, same⟩ := removeOwner_unchanged stuck
  exact ⟨done, address, rest, between, split, worked, stuck, same⟩

end PeerSet

theorem Outcome.eq_of_answer {σ α : Type} {outcome : Outcome σ α} {answer : Except PeerError α}
    (answered : outcome.answer = answer) : outcome = ⟨answer, outcome.state, outcome.store⟩ := by
  rw [← answered]

/-- A pod with only the first `count` of its addresses. -/
def Pod.upTo (pod : Pod) (count : Nat) : Pod :=
  ⟨pod.key, pod.addresses.take count, pod.nodup.sublist (List.take_sublist ..)⟩

namespace Rule

variable {families : Families} {peers reached : PeerSet} {rule next : Rule} {store after : Store}
  {error : PeerError}

theorem addAddresses_stops {pod : PodKey} {addresses : List Address}
    (failed : addAddresses families pod addresses peers store = ⟨.error error, reached, after⟩) :
    ∃ count address between, addresses[count]? = some address ∧
      families.isEnabled address.family = true ∧
      addAddresses families pod (addresses.take count) peers store = ⟨.ok (), reached, between⟩ ∧
      reached.addOwner address pod between = ⟨.error error, reached, after⟩ := by
  induction addresses generalizing peers store with
  | nil => cases failed
  | cons address addresses ih =>
      rw [addAddresses] at failed
      by_cases enabled : families.isEnabled address.family = true
      · rw [if_pos enabled] at failed
        split at failed
        next added middle later worked =>
          obtain ⟨count, place, between, listed, placed, done, stuck⟩ := ih failed
          refine ⟨count + 1, place, between, listed, placed, ?_, stuck⟩
          simp only [List.take_succ_cons, addAddresses, if_pos enabled, worked, done]
        next reason middle later stuck =>
          cases failed
          obtain ⟨rfl, -⟩ := PeerSet.addOwner_unchanged stuck
          exact ⟨0, address, store, rfl, enabled, rfl, stuck⟩
      · rw [if_neg enabled] at failed
        obtain ⟨count, place, between, listed, placed, done, stuck⟩ := ih failed
        refine ⟨count + 1, place, between, listed, placed, ?_, stuck⟩
        simp only [List.take_succ_cons, addAddresses, if_neg enabled, done]

theorem addEach_stops {pods : List Pod}
    (failed : addEach families pods peers store = ⟨.error error, reached, after⟩) :
    ∃ done pod rest count address between, pods = done ++ pod :: rest ∧
      pod.addresses[count]? = some address ∧ families.isEnabled address.family = true ∧
      addEach families (done ++ [pod.upTo count]) peers store = ⟨.ok (), reached, between⟩ ∧
      reached.addOwner address pod.key between = ⟨.error error, reached, after⟩ := by
  induction pods generalizing peers store with
  | nil => cases failed
  | cons pod pods ih =>
      rw [addEach] at failed
      split at failed
      next middle later worked =>
        obtain ⟨done, stopped, rest, count, address, between, split, listed, enabled, worked',
          stuck⟩ := ih failed
        refine ⟨pod :: done, stopped, rest, count, address, between, by rw [split, List.cons_append],
          listed, enabled, ?_, stuck⟩
        simp only [List.cons_append, addEach, worked, worked']
      next reason middle later stuck =>
        cases failed
        obtain ⟨count, address, between, listed, enabled, done, stuck⟩ := addAddresses_stops stuck
        refine ⟨[], pod, pods, count, address, between, rfl, listed, enabled, ?_, stuck⟩
        simp only [List.nil_append, addEach, Pod.upTo, done]

/-- An addition of pods to a peer set that fails does so at one address of one pod,
and leaves what the addition of the pods and the addresses before it comes to. -/
theorem addPods_stops {pods : List Pod}
    (failed : rule.addPods pods store = ⟨.error error, next, after⟩) :
    (rule.peers = none ∧ error = .noPeerSet rule.id.setName ∧ next = rule ∧ after = store) ∨
    ∃ done pod rest count address reached between, pods = done ++ pod :: rest ∧
      pod.addresses[count]? = some address ∧ rule.families.isEnabled address.family = true ∧
      rule.addPods (done ++ [pod.upTo count]) store = ⟨.ok (), next, between⟩ ∧
      next.peers = some reached ∧
      reached.addOwner address pod.key between = ⟨.error error, reached, after⟩ ∧
      after.contents = between.contents := by
  rcases onPeers_cases failed with ⟨none, same, rfl, rfl⟩ | ⟨peers, reached, some, worked, rfl⟩
  · exact .inl ⟨none, Except.error.inj same, rfl, rfl⟩
  · obtain ⟨done, pod, rest, count, address, between, split, listed, enabled, done', stuck⟩ :=
      addEach_stops worked
    refine .inr ⟨done, pod, rest, count, address, reached, between, split, listed, enabled, ?_, rfl,
      stuck, (PeerSet.addOwner_unchanged stuck).2⟩
    simp only [addPods, onPeers, some, done']

theorem onPeers_failStop {work : PeerSet → Store → Outcome PeerSet Unit}
    (step : ∀ peers, FailStop store (work peers store).answer (work peers store).store) :
    FailStop store (rule.onPeers work store).answer (rule.onPeers work store).store := by
  cases ended : rule.onPeers work store with
  | mk answer next after =>
      rcases onPeers_cases ended with ⟨-, rfl, -, rfl⟩ | ⟨peers, reached, -, worked, -⟩
      · exact .of_unasked (.inl ⟨_, rfl⟩)
      · have stopped := step peers
        rwa [worked] at stopped

theorem ensurePeers_failStop (rule : Rule) (store : Store) :
    FailStop store (rule.ensurePeers store).answer (rule.ensurePeers store).store := by
  have stopped := PeerSet.ensure_failStop rule.id.setName rule.families store
  cases ended : rule.ensurePeers store with
  | mk answer next after =>
      rcases ensurePeers_cases ended with
        ⟨-, rfl, -, rfl⟩ | ⟨peers, -, rfl, ensured, -⟩ | ⟨error, -, rfl, failed, -⟩
      · exact .of_uncalled ()
      · rw [ensured] at stopped
        exact stopped.map fun _ => ()
      · rw [failed] at stopped
        exact stopped.map fun _ => ()

theorem destroy_failStop (rule : Rule) (store : Store) :
    FailStop store (rule.destroy store).answer (rule.destroy store).store := by
  cases ended : rule.destroy store with
  | mk answer next after =>
      rcases destroy_cases ended with
        ⟨-, rfl, -, rfl⟩ | ⟨peers, reached, -, rfl, worked, -⟩ |
          ⟨error, peers, reached, -, rfl, worked, -⟩
      · exact .of_uncalled ()
      · have stopped := peers.destroy_failStop store
        rwa [worked] at stopped
      · have stopped := peers.destroy_failStop store
        rwa [worked] at stopped

theorem Operation.failStop (operation : Operation) (rule : Rule) (store : Store) :
    FailStop store (operation.apply rule store).answer (operation.apply rule store).store := by
  cases operation with
  | ensure => exact rule.ensurePeers_failStop store
  | addPods pods =>
      refine onPeers_failStop fun peers => ?_
      rw [addEach_eq]
      exact Intent.each_failStop PeerSet.addPlan_honest _ peers store
  | deletePod pod => exact onPeers_failStop fun peers => peers.removeAll_failStop pod.key store
  | destroy => exact rule.destroy_failStop store

end Rule

/-- Whatever the state of the rule, of the peer set and of the store is, an operation
stops at the first call that fails and reports it, and leaves the state that its steps
before the call come to. -/
theorem operations_fail_stop :
    (∀ name families store,
      FailStop store (PeerSet.ensure name families store).1
        (PeerSet.ensure name families store).2) ∧
    (∀ (operation : Rule.Operation) rule store,
      FailStop store (operation.apply rule store).answer (operation.apply rule store).store) ∧
    (∀ (operation : PeerSet.Operation) peers store,
      FailStop store (operation.apply peers store).answer (operation.apply peers store).store) ∧
    (∀ (peers : PeerSet) address pod store error next after,
      peers.addOwner address pod store = ⟨.error error, next, after⟩ ∨
        peers.removeOwner address pod store = ⟨.error error, next, after⟩ →
      next = peers ∧ after.contents = store.contents) ∧
    (∀ (rule : Rule) pods store error next after,
      rule.addPods pods store = ⟨.error error, next, after⟩ →
      (rule.peers = none ∧ error = .noPeerSet rule.id.setName ∧ next = rule ∧ after = store) ∨
      ∃ done pod rest count address reached between, pods = done ++ pod :: rest ∧
        pod.addresses[count]? = some address ∧ rule.families.isEnabled address.family = true ∧
        rule.addPods (done ++ [pod.upTo count]) store = ⟨.ok (), next, between⟩ ∧
        next.peers = some reached ∧
        reached.addOwner address pod.key between = ⟨.error error, reached, after⟩ ∧
        after.contents = between.contents) ∧
    ∀ (peers : PeerSet) pod store error next after,
      peers.removeAll pod store = ⟨.error error, next, after⟩ →
      ∃ done address rest between, peers.ownedBy pod = done ++ address :: rest ∧
        PeerSet.removeEach pod done peers store = ⟨.ok (), next, between⟩ ∧
        next.removeOwner address pod between = ⟨.error error, next, after⟩ ∧
        after.contents = between.contents := by
  refine ⟨PeerSet.ensure_failStop, Rule.Operation.failStop, PeerSet.Operation.failStop, ?_,
    fun _ _ _ _ _ _ failed => Rule.addPods_stops failed,
    fun _ _ _ _ _ _ failed => PeerSet.removeAll_stops failed⟩
  rintro peers address pod store error next after (failed | failed)
  · exact PeerSet.addOwner_unchanged failed
  · exact PeerSet.removeOwner_unchanged failed

/-- A rule with one pod, on a store that turns away every change of the IPv6 half. -/
def heldPeers : PeerSet := (Rule.addEach .dualStack [mappedPod] backedPeers backedStore).state

def heldRule : Rule := { dualRule with peers := some heldPeers }

def heldStore : Store :=
  ((Rule.addEach .dualStack [mappedPod] backedPeers backedStore).store.block .add "ns1_v6").block
    .delete "ns1_v6"

def mappedAddress : Address := .v6 ⟨0, 0, 0, 0, 0, 0xffff, 0x0a00, 0x0001⟩

def nextPod : Pod :=
  .ofAddresses ⟨"ns1", "pod2"⟩ [.v4 ⟨10, 0, 0, 2⟩, .v6 ⟨0xfd00, 0, 0, 0, 0, 0, 0, 2⟩]

theorem operations_fail_stop_held :
    let removal := heldPeers.removeOwner mappedAddress mappedPod.key heldStore
    let addition := heldRule.addPods [nextPod] heldStore
    let clearing := (PeerSet.Operation.owners (.removeAll mappedPod.key)).apply heldPeers heldStore
    removal.answer = .error (.delete "ns1_v6" mappedAddress (.failure "ns1_v6" "blocked")) ∧
    removal.state.owners = heldPeers.owners ∧ removal.store.contents = heldStore.contents ∧
    FailStop heldStore addition.answer addition.store ∧
    (∃ count, (heldRule.addPods [nextPod.upTo count] heldStore).answer = .ok () ∧
      addition.store.contents =
        (heldRule.addPods [nextPod.upTo count] heldStore).store.contents) ∧
    FailStop heldStore clearing.answer clearing.store ∧
    ∃ done address rest, heldPeers.ownedBy mappedPod.key = done ++ address :: rest ∧
      clearing.state.owners =
        (PeerSet.removeEach mappedPod.key done heldPeers heldStore).state.owners := by
  obtain ⟨-, rules, sets, single, pods, pod⟩ := operations_fail_stop
  have removed : (heldPeers.removeOwner mappedAddress mappedPod.key heldStore).answer =
      .error (.delete "ns1_v6" mappedAddress (.failure "ns1_v6" "blocked")) := by decide +kernel
  have added : (heldRule.addPods [nextPod] heldStore).answer =
      .error (.add "ns1_v6" (.v6 ⟨0xfd00, 0, 0, 0, 0, 0, 0, 2⟩) (.failure "ns1_v6" "blocked")) := by
    decide +kernel
  have cleared : (heldPeers.removeAll mappedPod.key heldStore).answer =
      .error (.delete "ns1_v6" mappedAddress (.failure "ns1_v6" "blocked")) := by decide +kernel
  obtain ⟨same, contents⟩ := single heldPeers mappedAddress mappedPod.key heldStore _ _ _
    (.inr (Outcome.eq_of_answer removed))
  refine ⟨removed, by rw [same], contents, rules (.addPods [nextPod]) heldRule heldStore, ?_,
    sets (.owners (.removeAll mappedPod.key)) heldPeers heldStore, ?_⟩
  · rcases pods heldRule [nextPod] heldStore _ _ _ (Outcome.eq_of_answer added) with
      ⟨none, -⟩ | ⟨done, stopped, rest, count, address, reached, between, split, -, -, worked, -, -,
        contents⟩
    · cases none
    · obtain ⟨rfl, rfl, -⟩ : done = [] ∧ stopped = nextPod ∧ rest = [] := by
        cases done with
        | nil => simpa [eq_comm] using split
        | cons first done => simp at split
      rw [List.nil_append] at worked
      exact ⟨count, by rw [worked], by rw [contents, worked]⟩
  · obtain ⟨done, address, rest, between, split, worked, -, -⟩ :=
      pod heldPeers mappedPod.key heldStore _ _ _ (Outcome.eq_of_answer cleared)
    refine ⟨done, address, rest, split, ?_⟩
    rw [worked]
    rfl

end PolicyAcl
