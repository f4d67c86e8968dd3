import PolicyAcl.Proofs.Failures
import PolicyAcl.Proofs.Trail

/-! When the store is called: once for an address that gains its first owner, and once
for an address that loses its last one. A call that fails leaves its edge to be met again. -/
namespace PolicyAcl

open Store (accepted Call Entry Faults Op Turns)

/-- A call of this kind that failed. -/
def Store.Entry.missed (op : Op) (entry : Entry) : Bool := entry.call.op = op && entry.error ≠ none

/-- The kind of call that an error tells of. -/
def PeerError.op? : PeerError → Option Op
  | .noPeerSet _ => none
  | .noFamilySet _ _ => none
  | .ensure _ _ => some .ensure
  | .add _ _ _ => some .add
  | .delete _ _ _ => some .delete
  | .destroy _ _ => some .destroy

/-- The answer is an error of a call of this kind. -/
def blames {α : Type} (op : Op) : Except PeerError α → Bool
  | .ok _ => false
  | .error error => error.op? = some op

theorem PeerError.Reports.op?_eq {error : PeerError} {call : Call} {cause : Store.Error}
    (h : error.Reports call cause) : error.op? = some call.op := by
  cases h <;> rfl

theorem PeerError.Unasked.op?_eq {error : PeerError} (h : error.Unasked) : error.op? = none := by
  rcases h with ⟨rule, rfl⟩ | ⟨set, address, rfl⟩ <;> rfl

/-- An operation that ends with an error of a call has made one call that failed, of this
kind, and any other operation has made none. -/
theorem Stopped.missed {α : Type} {calls : List Entry} {answer : Except PeerError α} {after : Store}
    (stopped : Stopped calls answer after) (op : Op) :
    calls.countP (·.missed op) = (blames op answer).toNat := by
  have clean (entries : List Entry) (succeeded : ∀ entry ∈ entries, entry.error = none) :
      entries.countP (·.missed op) = 0 := by
    apply List.countP_eq_zero.mpr
    intro entry member
    simp [Entry.missed, succeeded entry member]
  by_cases succeeded : ∀ entry ∈ calls, entry.error = none
  · rw [clean calls succeeded]
    cases answer with
    | ok done => rfl
    | error error =>
        obtain ⟨none, unasked⟩ := stopped.unasked error rfl
        simp [blames, (unasked.mp (none.mpr succeeded)).op?_eq]
  · push Not at succeeded
    obtain ⟨entry, member, failed⟩ := succeeded
    obtain ⟨cause, failed⟩ := Option.ne_none_iff_exists'.mp failed
    obtain ⟨⟨earlier, rfl, others⟩, -, error, rfl, reports, -⟩ := stopped.stops entry member cause failed
    rw [List.countP_cons, clean earlier others]
    simp only [Entry.missed, failed, blames, reports.op?_eq]
    by_cases same : entry.call.op = op <;> simp [same]

/-- A pod that does not own the address alone gives it up without the store. -/
theorem PeerSet.removePlan_of_not_sole {peers : PeerSet} {address : Address} {pod : PodKey}
    (shared : ¬Ownership.Sole peers.ownership address pod) :
    ∃ left, removePlan pod address peers = .quiet left ∧
      left.ownership = peers.ownership \ {(address, pod)} := by
  by_cases owner : peers.Owns pod address
  · obtain ⟨other, sharer, different⟩ : ∃ other, peers.Owns other address ∧ other ≠ pod := by
      by_contra none
      push Not at none
      exact shared ⟨owner, none⟩
    obtain ⟨changed, planned, left⟩ := removePlan_of_shared owner different sharer
    exact ⟨_, planned, left⟩
  · have unlisted : (address, pod) ∉ peers.ownership := owner
    exact ⟨peers, removePlan_of_stranger owner, (Set.sdiff_singleton_eq_self unlisted).symm⟩

/-- A plan has one call to make at most. -/
theorem Intent.entries_nodup {σ : Type} (intent : Intent σ) (store : Store) :
    ((intent.entries store).map (·.call)).Nodup := by
  cases intent with
  | quiet next => exact .nil
  | refuse error => exact .nil
  | submit call next complain => exact List.nodup_singleton call

namespace OwnerChange

open PeerSet (addPlan removePlan Trail)

variable {peers : PeerSet} {store : Store} {pod : PodKey}

/-- The edges of a change, each with the call that it has to make. A pod gives up its
addresses in order, and does not come to those above one that it cannot give up. -/
inductive Edge (peers next : PeerSet) : OwnerChange → Call → Prop
  | first {address pod set} :
      (∀ other, ¬peers.Owns other address) → peers.backing.handle? address.family = some set →
      Edge peers next (.add address pod) (.add set [address])
  | last {address pod set} :
      Ownership.Sole peers.ownership address pod →
      peers.backing.handle? address.family = some set →
      Edge peers next (.remove address pod) (.delete set [address])
  | lastOfAll {address pod set} :
      Ownership.Sole peers.ownership address pod →
      peers.backing.handle? address.family = some set →
      (∀ lower, peers.Owns pod lower → lower.rank < address.rank → ¬next.Owns pod lower) →
      Edge peers next (.removeAll pod) (.delete set [address])

theorem mem_addPlan_entries (address : Address) (pod : PodKey) (peers : PeerSet) (store : Store)
    (call : Call) :
    call ∈ ((addPlan (address, pod) peers).entries store).map (·.call) ↔
      (∀ other, ¬peers.Owns other address) ∧
        ∃ set, peers.backing.handle? address.family = some set ∧ call = .add set [address] := by
  cases found : peers.owners[address]? with
  | some owners =>
      have owned : ∃ other, peers.Owns other address :=
        PeerSet.mem_owners_iff.mp (PeerSet.mem_of_found found)
      rw [PeerSet.addPlan_owned found]
      simp [Intent.entries, owned]
  | none =>
      have unowned (other : PodKey) : ¬peers.Owns other address := PeerSet.not_owns_of_missing found
      cases handle : peers.backing.handle? address.family with
      | none =>
          rw [PeerSet.addPlan_unbacked found handle]
          simp [Intent.entries]
      | some set =>
          rw [PeerSet.addPlan_first found handle]
          simp [Intent.entries, unowned]

theorem mem_removePlan_entries (pod : PodKey) (address : Address) (peers : PeerSet) (store : Store)
    (call : Call) :
    call ∈ ((removePlan pod address peers).entries store).map (·.call) ↔
      Ownership.Sole peers.ownership address pod ∧
        ∃ set, peers.backing.handle? address.family = some set ∧ call = .delete set [address] := by
  by_cases sole : Ownership.Sole peers.ownership address pod
  · cases handle : peers.backing.handle? address.family with
    | none =>
        rw [PeerSet.removePlan_of_sole_unbacked sole.1 sole.2 handle]
        simp [Intent.entries]
    | some set =>
        obtain ⟨changed, planned, -⟩ := PeerSet.removePlan_of_sole sole.1 sole.2 handle
        rw [planned]
        simp [Intent.entries, sole]
  · obtain ⟨shrunk, planned, -⟩ := PeerSet.removePlan_of_not_sole sole
    rw [planned]
    simp [Intent.entries, sole]

theorem edge_removeAll_iff {next : PeerSet} {call : Call} :
    Edge peers next (.removeAll pod) call ↔
      ∃ address set, Ownership.Sole peers.ownership address pod ∧
        peers.backing.handle? address.family = some set ∧
        (∀ lower, peers.Owns pod lower → lower.rank < address.rank → ¬next.Owns pod lower) ∧
        call = .delete set [address] := by
  constructor
  · intro edge
    cases edge with
    | lastOfAll sole handle lower => exact ⟨_, _, sole, handle, lower, rfl⟩
  · rintro ⟨address, set, sole, handle, lower, rfl⟩
    exact .lastOfAll sole handle lower

theorem removeEach_shrinks (pod : PodKey) (addresses : List Address) (peers : PeerSet)
    (store : Store) :
    (Intent.each (removePlan pod) addresses peers store).state.ownership ⊆ peers.ownership := by
  refine Intent.each_preserves (removePlan pod) (fun next _ => next.ownership ⊆ peers.ownership)
    ?_ (Set.Subset.refl _)
  intro address _ state contents next after smaller performed
  rw [PeerSet.removePlan_ownership performed]
  exact Set.sdiff_subset.trans smaller

/-- A pod that keeps its lowest address does not come to the others. -/
theorem edge_removeAll_stuck {lowest : Address} {call : Call} (owner : peers.Owns pod lowest)
    (below : ∀ address, peers.Owns pod address → lowest.rank ≤ address.rank) :
    Edge peers peers (.removeAll pod) call ↔ Ownership.Sole peers.ownership lowest pod ∧
      ∃ set, peers.backing.handle? lowest.family = some set ∧ call = .delete set [lowest] := by
  rw [edge_removeAll_iff]
  constructor
  · rintro ⟨address, set, sole, handle, lower, rfl⟩
    by_cases same : address = lowest
    · subst same
      exact ⟨sole, set, handle, rfl⟩
    · have higher : lowest.rank < address.rank :=
        Nat.lt_of_le_of_ne (below address sole.1) fun level => same (Address.rank_inj level).symm
      exact absurd owner (lower lowest owner higher)
  · rintro ⟨sole, set, handle, rfl⟩
    exact ⟨lowest, set, sole, handle, fun other owns smaller =>
      absurd smaller (Nat.not_lt.mpr (below other owns)), rfl⟩

/-- Once a pod has given up its lowest address, what is left are the edges of the rest. -/
theorem edge_removeAll_lowest {lowest : Address} {next last : PeerSet} {call : Call}
    (shrunk : next.ownership = peers.ownership \ {(lowest, pod)})
    (backing : next.backing = peers.backing)
    (below : ∀ address, peers.Owns pod address → lowest.rank ≤ address.rank)
    (gone : ¬last.Owns pod lowest) :
    Edge peers last (.removeAll pod) call ↔
      Edge next last (.removeAll pod) call ∨ Ownership.Sole peers.ownership lowest pod ∧
        ∃ set, peers.backing.handle? lowest.family = some set ∧ call = .delete set [lowest] := by
  have owns (address : Address) (other : PodKey) : next.Owns other address ↔
      peers.Owns other address ∧ ¬(address = lowest ∧ other = pod) := by
    rw [← PeerSet.mem_ownership, shrunk, Set.mem_sdiff, Set.mem_singleton_iff, Prod.mk.injEq,
      PeerSet.mem_ownership]
  have elsewhere {address : Address} (different : address ≠ lowest) :
      Ownership.Sole next.ownership address pod ↔ Ownership.Sole peers.ownership address pod := by
    simp only [Ownership.Sole, PeerSet.mem_ownership, owns, different, false_and, not_false_iff,
      and_true]
  simp only [edge_removeAll_iff, backing]
  constructor
  · rintro ⟨address, set, sole, handle, lower, rfl⟩
    by_cases same : address = lowest
    · subst same
      exact .inr ⟨sole, set, handle, rfl⟩
    · refine .inl ⟨address, set, (elsewhere same).mpr sole, handle, fun other owned smaller => ?_, rfl⟩
      exact lower other ((owns other pod).mp owned).1 smaller
  · rintro (⟨address, set, sole, handle, lower, rfl⟩ | ⟨sole, set, handle, rfl⟩)
    · have different : address ≠ lowest := fun same => ((owns address pod).mp sole.1).2 ⟨same, rfl⟩
      refine ⟨address, set, (elsewhere different).mp sole, handle, fun other owned smaller => ?_, rfl⟩
      by_cases same : other = lowest
      · subst same
        exact gone
      · exact lower other ((owns other pod).mpr ⟨owned, fun both => same both.1⟩) smaller
    · exact ⟨lowest, set, sole, handle, fun other owned smaller =>
        absurd smaller (Nat.not_lt.mpr (below other owned)), rfl⟩

/-- The loop over the addresses of a pod calls the store on the edges it comes to. -/
theorem removeEach_edges {addresses : List Address} (sorted : Address.Sorted addresses)
    (owned : ∀ address, address ∈ addresses ↔ peers.Owns pod address) :
    ∃ made, (Intent.each (removePlan pod) addresses peers store).store.journal =
        made ++ store.journal ∧
      (made.map (·.call)).Nodup ∧
      ∀ call, call ∈ made.map (·.call) ↔
        Edge peers (Intent.each (removePlan pod) addresses peers store).state (.removeAll pod) call := by
  induction addresses generalizing peers store with
  | nil =>
      refine ⟨[], rfl, .nil, ?_⟩
      intro call
      refine iff_of_false List.not_mem_nil ?_
      intro edge
      obtain ⟨address, -, sole, -⟩ := edge_removeAll_iff.mp edge
      exact List.not_mem_nil ((owned address).mpr sole.1)
  | cons lowest addresses ih =>
      -- The head of the snapshot is the lowest address of the pod: it either keeps that one
      -- and comes to no other, or gives it up and goes on with the rest.
      obtain ⟨lowestFirst, sorted⟩ := List.pairwise_cons.mp sorted
      have owner : peers.Owns pod lowest := (owned lowest).mp List.mem_cons_self
      have below (address : Address) (owns : peers.Owns pod address) : lowest.rank ≤ address.rank := by
        rcases List.mem_cons.mp ((owned address).mpr owns) with rfl | later
        · exact Nat.le_refl _
        · exact Nat.le_of_lt (lowestFirst address later)
      have called := Intent.carryOut_journal (removePlan pod lowest peers) peers store
      have distinct := (removePlan pod lowest peers).entries_nodup store
      have calls := mem_removePlan_entries pod lowest peers store
      rw [Intent.each]
      generalize (removePlan pod lowest peers).entries store = first at called distinct calls
      cases carried : (removePlan pod lowest peers).carryOut peers store with
      | mk answer next after =>
          rw [carried] at called
          cases answer with
          | error error =>
              obtain ⟨rfl, -⟩ := Intent.carryOut_error carried
              refine ⟨first, called, distinct, ?_⟩
              intro call
              rw [calls, edge_removeAll_stuck owner below]
          | ok done =>
              have performed := Intent.carryOut_ok carried
              have shrunk := PeerSet.removePlan_ownership performed
              have given : (lowest, pod) ∉ next.ownership := by
                rw [shrunk]
                exact fun still => still.2 rfl
              have gone : ¬(Intent.each (removePlan pod) addresses next after).state.Owns pod lowest :=
                fun still => given (removeEach_shrinks pod addresses next after still)
              obtain ⟨rest, calledToo, distinctToo, callsToo⟩ :=
                ih sorted (PeerSet.mem_rest_iff lowestFirst owned shrunk)
              refine ⟨rest ++ first, ?_, ?_, ?_⟩
              · rw [calledToo, called, List.append_assoc]
              · rw [List.map_append]
                apply List.Nodup.append distinctToo distinct
                intro call later earlier
                obtain ⟨address, set, sole, -, -, rfl⟩ := edge_removeAll_iff.mp ((callsToo call).mp later)
                obtain ⟨-, set', -, same⟩ := (calls _).mp earlier
                obtain ⟨rfl, rfl⟩ : set = set' ∧ address = lowest := by simpa using same
                exact given sole.1
              · intro call
                rw [edge_removeAll_lowest shrunk (PeerSet.removePlan_backing performed) below gone,
                  List.map_append, List.mem_append, callsToo, calls]

/-- A change calls the store on its edges and nowhere else, and never twice on one. -/
theorem apply_edges (change : OwnerChange) (peers : PeerSet) (store : Store) :
    ∃ made, (change.apply peers store).store.journal = made ++ store.journal ∧
      (made.map (·.call)).Nodup ∧
      ∀ call, call ∈ made.map (·.call) ↔ Edge peers (change.apply peers store).state change call := by
  cases change with
  | add address pod =>
      simp only [apply, Outcome.map, PeerSet.addOwner_eq]
      refine ⟨_, Intent.carryOut_journal _ _ _, Intent.entries_nodup _ _, ?_⟩
      intro call
      rw [mem_addPlan_entries]
      constructor
      · rintro ⟨unowned, set, handle, rfl⟩
        exact .first unowned handle
      · intro edge
        cases edge with
        | first unowned handle => exact ⟨unowned, _, handle, rfl⟩
  | remove address pod =>
      simp only [apply, Outcome.map, PeerSet.removeOwner_eq]
      refine ⟨_, Intent.carryOut_journal _ _ _, Intent.entries_nodup _ _, ?_⟩
      intro call
      rw [mem_removePlan_entries]
      constructor
      · rintro ⟨sole, set, handle, rfl⟩
        exact .last sole handle
      · intro edge
        cases edge with
        | last sole handle => exact ⟨sole, _, handle, rfl⟩
  | removeAll pod =>
      simp only [apply, Outcome.map, PeerSet.removeAll, PeerSet.removeEach_eq]
      exact removeEach_edges (peers.ownedBy_sorted pod) fun _ => PeerSet.mem_ownedBy

/-- An address entered the store. -/
def added : OwnerChange × Except PeerError (Option Bool) → Bool
  | (.add _ _, .ok (some true)) => true
  | _ => false

theorem addPlan_added (address : Address) (pod : PodKey) (peers : PeerSet) (store : Store) :
    ((addPlan (address, pod) peers).entries store).countP (·.did .add) =
      (added (.add address pod, ((addPlan (address, pod) peers).carryOut peers store).answer.map some)).toNat := by
  cases found : peers.owners[address]? with
  | some owners =>
      rw [PeerSet.addPlan_owned found]
      rfl
  | none =>
      cases handle : peers.backing.handle? address.family with
      | none =>
          rw [PeerSet.addPlan_unbacked found handle]
          rfl
      | some set =>
          rw [PeerSet.addPlan_first found handle, Intent.entries]
          cases answered : store.answer (.add set [address]) with
          | ok contents =>
              rw [Intent.carryOut_of_ok peers answered, Store.complaint?_eq_none.mpr ⟨contents, answered⟩]
              rfl
          | error cause =>
              rw [Intent.carryOut_of_error peers answered, Store.complaint?_eq_some.mpr answered]
              rfl

theorem apply_calls (change : OwnerChange) (peers : PeerSet) (store : Store) :
    ∃ made, (change.apply peers store).store.journal = made ++ store.journal ∧
      Trail peers made (change.apply peers store).state ∧
      (∀ entry ∈ made, entry.reached = !store.faults.blocks entry.call) ∧
      made.countP (·.did .add) = (added (change, (change.apply peers store).answer)).toNat ∧
      ∀ op, made.countP (·.missed op) = (blames op (change.apply peers store).answer).toNat := by
  obtain ⟨made, called, trail, reached⟩ := apply_trail change peers store
  have same {other : List Entry}
      (calledToo : (change.apply peers store).store.journal = other ++ store.journal) : other = made :=
    List.append_cancel_right (calledToo.symm.trans called)
  obtain ⟨other, calledToo, stopped⟩ := (PeerSet.Operation.owners change).failStop peers store
  obtain rfl := same calledToo
  refine ⟨other, called, trail, reached, ?_, stopped.missed⟩
  have deletes (only : ∀ call next, Edge peers next change call → call.op = .delete) :
      other.countP (·.did .add) = 0 := by
    obtain ⟨others, calledAgain, -, edges⟩ := apply_edges change peers store
    obtain rfl := same calledAgain
    apply List.countP_eq_zero.mpr
    intro entry member
    have deleted := only entry.call _ ((edges entry.call).mp (List.mem_map_of_mem member))
    simp [Entry.did, deleted]
  cases change with
  | add address pod =>
      have journal := Intent.carryOut_journal (addPlan (address, pod) peers) peers store
      simp only [apply, Outcome.map, PeerSet.addOwner_eq] at same ⊢
      rw [← same journal, addPlan_added]
  | remove address pod =>
      rw [deletes fun call next edge => by cases edge; rfl]
      rfl
  | removeAll pod =>
      rw [deletes fun call next edge => by cases edge; rfl]
      rfl

/-- Changes one after the other, each under its own faults, with what they answer and the
store that they end with. -/
def trace : List (Faults × OwnerChange) → PeerSet → Store →
    List (OwnerChange × Except PeerError (Option Bool)) × PeerSet × Store
  | [], peers, store => ([], peers, store)
  | (faults, change) :: steps, peers, store =>
    let outcome := change.apply peers (store.withFaults faults)
    let (answers, last) := trace steps outcome.state outcome.store
    ((change, outcome.answer) :: answers, last)

theorem trace_calls (steps : List (Faults × OwnerChange)) (peers : PeerSet) (store : Store) :
    let (answers, last, after) := trace steps peers store
    ∃ made, after.journal = made ++ store.journal ∧ Trail peers made last ∧
      made.countP (·.did .add) = answers.countP added ∧
      (∀ op, made.countP (·.missed op) = answers.countP fun (_, answer) => blames op answer) ∧
      ((∀ step ∈ steps, step.1.blocked = []) → ∀ entry ∈ made, entry.reached = true) := by
  induction steps generalizing peers store with
  | nil => exact ⟨[], rfl, .start, rfl, fun _ => rfl, fun _ => by simp⟩
  | cons step steps ih =>
      obtain ⟨faults, change⟩ := step
      obtain ⟨first, called, trail, reached, adds, misses⟩ :=
        apply_calls change peers (store.withFaults faults)
      obtain ⟨rest, calledToo, trailToo, addsToo, missesToo, reachedToo⟩ :=
        ih (change.apply peers (store.withFaults faults)).state
          (change.apply peers (store.withFaults faults)).store
      refine ⟨rest ++ first, ?_, trail.trans trailToo, ?_, ?_, ?_⟩
      · simp only [calledToo, called, Store.withFaults_journal, List.append_assoc]
      · simp only [List.countP_append, adds, addsToo, List.countP_cons]
        cases added (change, _) <;> rfl
      · intro op
        simp only [List.countP_append, misses, missesToo, List.countP_cons]
        cases blames op _ <;> rfl
      · intro unblocked
        obtain ⟨clear, later⟩ := List.forall_mem_cons.mp unblocked
        refine List.forall_mem_append.mpr ⟨reachedToo later, ?_⟩
        intro entry member
        rw [reached entry member, Store.withFaults_faults, Faults.blocks, clear]
        simp

end OwnerChange

theorem Store.calls_of_reached {store after : Store} {made : List Entry}
    (called : after.journal = made ++ store.journal) (reached : ∀ entry ∈ made, entry.reached = true)
    (op : Op) :
    after.calls op = store.calls op + made.countP (·.did op) + made.countP (·.missed op) := by
  have split : made.countP (fun entry => entry.reached && entry.call.op = op) =
      made.countP (·.did op) + made.countP (·.missed op) := by
    clear called
    induction made with
    | nil => rfl
    | cons entry made ih =>
        obtain ⟨arrived, later⟩ := List.forall_mem_cons.mp reached
        simp only [List.countP_cons, ih later, Entry.did, Entry.missed, arrived, Bool.true_and]
        by_cases same : entry.call.op = op <;> by_cases failed : entry.error = none <;>
          simp [same, failed] <;> omega
  rw [Store.calls, Store.calls, called, List.countP_append, split]
  omega

/-- The store is called on the edges between no owner and some, and it accepts these calls
in turns. -/
theorem store_is_called_on_edges (start : PeerSet) (unowned : start.owners = ∅) (store : Store)
    (steps : List (Faults × OwnerChange)) :
    (∀ (change : OwnerChange) (peers : PeerSet) (store : Store),
      ∃ made, (change.apply peers store).store.journal = made ++ store.journal ∧
        (made.map (·.call)).Nodup ∧
        ∀ call, call ∈ made.map (·.call) ↔
          OwnerChange.Edge peers (change.apply peers store).state change call) ∧
    let (answers, last, after) := OwnerChange.trace steps start store
    ∃ made, after.journal = made ++ store.journal ∧
      (∀ entry ∈ made, ∃ address set, start.backing.handle? address.family = some set ∧
        (entry.call = .add set [address] ∨ entry.call = .delete set [address])) ∧
      (∀ address, Turns (accepted address made) (last.contains address)) ∧
      made.countP (·.did .add) = answers.countP OwnerChange.added ∧
      last.size + made.countP (·.did .delete) = answers.countP OwnerChange.added ∧
      ((∀ step ∈ steps, step.1.blocked = []) → ∀ op, after.calls op =
        store.calls op + made.countP (·.did op) +
          answers.countP fun (_, answer) => blames op answer) := by
  refine ⟨OwnerChange.apply_edges, ?_⟩
  obtain ⟨made, called, trail, adds, misses, reached⟩ := OwnerChange.trace_calls steps start store
  have empty : start.size = 0 := by
    rw [PeerSet.size, unowned, Std.ExtTreeMap.size_empty]
  have size := trail.size
  refine ⟨made, called, trail.aimed, trail.turns unowned, adds, ?_, ?_⟩
  · rw [size, empty, Nat.zero_add, adds]
  · intro unblocked op
    rw [Store.calls_of_reached called (reached unblocked), misses]

/-- A shared address stays with its last owner, and a delete that fails is made again. -/
def sharedThenGone : List (Faults × OwnerChange) :=
  [({ failing := [.add] }, .add (.v4 ⟨10, 0, 0, 1⟩) ⟨"ns1", "pod1"⟩),
    ({}, .add (.v4 ⟨10, 0, 0, 1⟩) ⟨"ns1", "pod1"⟩),
    ({ failing := [.add] }, .add (.v4 ⟨10, 0, 0, 1⟩) ⟨"ns1", "pod2"⟩),
    ({ failing := [.delete] }, .removeAll ⟨"ns1", "pod1"⟩),
    ({ failing := [.delete] }, .remove (.v4 ⟨10, 0, 0, 1⟩) ⟨"ns1", "pod2"⟩),
    ({}, .removeAll ⟨"ns1", "pod2"⟩), ({}, .add (.v4 ⟨10, 0, 0, 1⟩) ⟨"ns1", "pod1"⟩)]

theorem store_is_called_on_edges_shared :
    let (answers, last, after) := OwnerChange.trace sharedThenGone backedPeers backedStore
    backedPeers.owners = ∅ ∧ (∀ step ∈ sharedThenGone, step.1.blocked = []) ∧
    after.journal.reverse.map (fun entry => (entry.call, entry.error.isNone)) =
      [(.add "ns1_v4" [.v4 ⟨10, 0, 0, 1⟩], false), (.add "ns1_v4" [.v4 ⟨10, 0, 0, 1⟩], true),
        (.delete "ns1_v4" [.v4 ⟨10, 0, 0, 1⟩], false), (.delete "ns1_v4" [.v4 ⟨10, 0, 0, 1⟩], true),
        (.add "ns1_v4" [.v4 ⟨10, 0, 0, 1⟩], true)] ∧
    Turns (accepted (.v4 ⟨10, 0, 0, 1⟩) after.journal) (last.contains (.v4 ⟨10, 0, 0, 1⟩)) ∧
    answers.countP OwnerChange.added = 2 ∧
    after.calls .add = 0 + after.journal.countP (·.did .add) +
      answers.countP fun (_, answer) => blames .add answer := by
  have unblocked : ∀ step ∈ sharedThenGone, step.1.blocked = [] := by decide +kernel
  obtain ⟨-, made, called, -, turns, -, -, counters⟩ :=
    store_is_called_on_edges backedPeers rfl backedStore sharedThenGone
  obtain rfl := called.trans (List.append_nil made)
  exact ⟨rfl, unblocked, by decide +kernel, turns _, by decide +kernel, counters unblocked .add⟩

end PolicyAcl
