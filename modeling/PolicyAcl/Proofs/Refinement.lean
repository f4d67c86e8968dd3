import PolicyAcl.Proofs.Plans
import PolicyAcl.Proofs.Session

/-! The owners of a peer set as a relation between addresses and pods. The rules of
the relation know the store only by its complaints, and the nested map of owners
follows them, whichever calls are refused from one step to the next. -/
namespace PolicyAcl

open Store (Call Contents Faults)

abbrev Ownership := Set (Address × PodKey)

namespace Ownership

/-- An address that belongs to one pod alone. -/
def Sole (owned : Ownership) (address : Address) (pod : PodKey) : Prop :=
  (address, pod) ∈ owned ∧ ∀ other, (address, other) ∈ owned → other = pod

/-- What a change answers and makes of the relation. The backing set of each family is
given, and what the store has to say about a call on it. -/
inductive Step (set : Family → String) (complaint? : Call → Option Store.Error) :
    OwnerChange → Ownership → Except PeerError (Option Bool) → Ownership → Prop where
  | addShared {owned : Ownership} {address pod other} :
      (address, other) ∈ owned →
      Step set complaint? (.add address pod) owned (.ok (some false)) (insert (address, pod) owned)
  | addFirst {owned : Ownership} {address pod} :
      (∀ other, (address, other) ∉ owned) →
      complaint? (.add (set address.family) [address]) = none →
      Step set complaint? (.add address pod) owned (.ok (some true)) (insert (address, pod) owned)
  | addRefused {owned : Ownership} {address pod cause} :
      (∀ other, (address, other) ∉ owned) →
      complaint? (.add (set address.family) [address]) = some cause →
      Step set complaint? (.add address pod) owned
        (.error (.add (set address.family) address cause)) owned
  | removeAbsent {owned : Ownership} {address pod} :
      (address, pod) ∉ owned →
      Step set complaint? (.remove address pod) owned (.ok (some false)) owned
  | removeShared {owned : Ownership} {address pod other} :
      (address, pod) ∈ owned → other ≠ pod → (address, other) ∈ owned →
      Step set complaint? (.remove address pod) owned (.ok (some false)) (owned \ {(address, pod)})
  | removeLast {owned : Ownership} {address pod} :
      owned.Sole address pod →
      complaint? (.delete (set address.family) [address]) = none →
      Step set complaint? (.remove address pod) owned (.ok (some true)) (owned \ {(address, pod)})
  | removeRefused {owned : Ownership} {address pod cause} :
      owned.Sole address pod →
      complaint? (.delete (set address.family) [address]) = some cause →
      Step set complaint? (.remove address pod) owned
        (.error (.delete (set address.family) address cause)) owned
  | removeAllDone {owned : Ownership} {pod} :
      (∀ address, owned.Sole address pod →
        complaint? (.delete (set address.family) [address]) = none) →
      Step set complaint? (.removeAll pod) owned (.ok none) {pair ∈ owned | pair.2 ≠ pod}
  | removeAllStuck {owned : Ownership} {address pod cause} :
      owned.Sole address pod →
      complaint? (.delete (set address.family) [address]) = some cause →
      (∀ lower, owned.Sole lower pod → lower.rank < address.rank →
        complaint? (.delete (set lower.family) [lower]) = none) →
      Step set complaint? (.removeAll pod) owned
        (.error (.delete (set address.family) address cause))
        {pair ∈ owned | ¬(pair.2 = pod ∧ pair.1.rank < address.rank)}

/-- Changes one after the other, each under its own faults. The store at the start is
asked every time, since no change of the owners makes or destroys a set. -/
inductive Run (set : Family → String) (store : Store) :
    List (Faults × OwnerChange) → Ownership → List (Except PeerError (Option Bool)) →
      Ownership → Prop where
  | done {owned : Ownership} : Run set store [] owned [] owned
  | step {owned between after : Ownership} {faults change steps answer answers} :
      Step set (store.withFaults faults).complaint? change owned answer between →
      Run set store steps between answers after →
      Run set store ((faults, change) :: steps) owned (answer :: answers) after

variable {set : Family → String} {complaint? : Call → Option Store.Error} {change : OwnerChange}
  {owned after after' : Ownership} {answer answer' : Except PeerError (Option Bool)}
  {address lowest : Address} {pod : PodKey}

theorem Step.deterministic (one : Step set complaint? change owned answer after)
    (two : Step set complaint? change owned answer' after') : answer = answer' ∧ after = after' := by
  cases one with
  | addShared owner =>
      cases two with
      | addShared => exact ⟨rfl, rfl⟩
      | addFirst new => exact absurd owner (new _)
      | addRefused new => exact absurd owner (new _)
  | addFirst new accepted =>
      cases two with
      | addShared owner => exact absurd owner (new _)
      | addFirst => exact ⟨rfl, rfl⟩
      | addRefused _ refused => simp [accepted] at refused
  | addRefused new refused =>
      cases two with
      | addShared owner => exact absurd owner (new _)
      | addFirst _ accepted => simp [accepted] at refused
      | addRefused _ refused' =>
          rw [refused, Option.some.injEq] at refused'
          exact ⟨by rw [refused'], rfl⟩
  | removeAbsent stranger =>
      cases two with
      | removeAbsent => exact ⟨rfl, rfl⟩
      | removeShared owner => exact absurd owner stranger
      | removeLast sole => exact absurd sole.1 stranger
      | removeRefused sole => exact absurd sole.1 stranger
  | removeShared owner different sharer =>
      cases two with
      | removeAbsent stranger => exact absurd owner stranger
      | removeShared => exact ⟨rfl, rfl⟩
      | removeLast sole => exact absurd (sole.2 _ sharer) different
      | removeRefused sole => exact absurd (sole.2 _ sharer) different
  | removeLast sole accepted =>
      cases two with
      | removeAbsent stranger => exact absurd sole.1 stranger
      | removeShared _ different sharer => exact absurd (sole.2 _ sharer) different
      | removeLast => exact ⟨rfl, rfl⟩
      | removeRefused _ refused => simp [accepted] at refused
  | removeRefused sole refused =>
      cases two with
      | removeAbsent stranger => exact absurd sole.1 stranger
      | removeShared _ different sharer => exact absurd (sole.2 _ sharer) different
      | removeLast _ accepted => simp [accepted] at refused
      | removeRefused _ refused' =>
          rw [refused, Option.some.injEq] at refused'
          exact ⟨by rw [refused'], rfl⟩
  | removeAllDone accepted =>
      cases two with
      | removeAllDone => exact ⟨rfl, rfl⟩
      | removeAllStuck sole refused => simp [accepted _ sole] at refused
  | @removeAllStuck _ address _ cause sole refused lower =>
      cases two with
      | removeAllDone accepted => simp [accepted _ sole] at refused
      | @removeAllStuck _ address' _ cause' sole' refused' lower' =>
          -- Both are the first address that cannot be deleted.
          have first : ¬address.rank < address'.rank := by
            intro below
            simp [lower' address sole below] at refused
          have last : ¬address'.rank < address.rank := by
            intro below
            simp [lower address' sole' below] at refused'
          have same : address = address' := Address.rank_inj (by omega)
          subst same
          rw [refused, Option.some.injEq] at refused'
          exact ⟨by rw [refused'], rfl⟩

theorem Run.deterministic {store : Store} {steps : List (Faults × OwnerChange)}
    {answers answers' : List (Except PeerError (Option Bool))}
    (one : Run set store steps owned answers after)
    (two : Run set store steps owned answers' after') : answers = answers' ∧ after = after' := by
  induction one generalizing answers' after' with
  | done =>
      cases two
      exact ⟨rfl, rfl⟩
  | step first rest ih =>
      cases two with
      | step first' rest' =>
          obtain ⟨rfl, rfl⟩ := first.deterministic first'
          obtain ⟨rfl, rfl⟩ := ih rest'
          exact ⟨rfl, rfl⟩

theorem Step.removed {called : Option Bool}
    (step : Step set complaint? (.remove address pod) owned (.ok called) after)
    (owner : (address, pod) ∈ owned) :
    after = owned \ {(address, pod)} ∧
      (owned.Sole address pod → complaint? (.delete (set address.family) [address]) = none) := by
  cases step with
  | removeAbsent stranger => exact absurd owner stranger
  | removeShared _ different sharer =>
      exact ⟨rfl, fun sole => absurd (sole.2 _ sharer) different⟩
  | removeLast _ accepted => exact ⟨rfl, fun _ => accepted⟩

theorem Step.remove_refused {error : PeerError}
    (step : Step set complaint? (.remove address pod) owned (.error error) after) :
    after = owned ∧ owned.Sole address pod ∧
      ∃ cause, complaint? (.delete (set address.family) [address]) = some cause ∧
        error = .delete (set address.family) address cause := by
  cases step with
  | removeRefused sole refused => exact ⟨rfl, sole, _, refused, rfl⟩

theorem Step.removeAll_stranger (stranger : ∀ address, (address, pod) ∉ owned) :
    Step set complaint? (.removeAll pod) owned (.ok none) owned := by
  have all : {pair ∈ owned | pair.2 ≠ pod} = owned := by
    refine Set.sep_eq_self_iff_mem_true.mpr ?_
    rintro ⟨address, other⟩ owns rfl
    exact stranger address owns
  have done : Step set complaint? (.removeAll pod) owned (.ok none) {pair ∈ owned | pair.2 ≠ pod} :=
    .removeAllDone fun address sole => absurd sole.1 (stranger address)
  rw [all] at done
  exact done

/-- If the lowest address of a pod cannot be deleted, nothing is forgotten. -/
theorem Step.removeAll_refused {cause : Store.Error}
    (below : ∀ address, (address, pod) ∈ owned → address ≠ lowest → lowest.rank < address.rank)
    (sole : owned.Sole lowest pod)
    (refused : complaint? (.delete (set lowest.family) [lowest]) = some cause) :
    Step set complaint? (.removeAll pod) owned
      (.error (.delete (set lowest.family) lowest cause)) owned := by
  have none (address : Address) (owns : (address, pod) ∈ owned) : ¬address.rank < lowest.rank := by
    intro lower
    have different : address ≠ lowest := by
      rintro rfl
      exact Nat.lt_irrefl _ lower
    exact Nat.lt_asymm lower (below address owns different)
  have all : {pair ∈ owned | ¬(pair.2 = pod ∧ pair.1.rank < lowest.rank)} = owned := by
    refine Set.sep_eq_self_iff_mem_true.mpr ?_
    rintro ⟨address, other⟩ owns ⟨rfl, lower⟩
    exact none address owns lower
  have stuck : Step set complaint? (.removeAll pod) owned
      (.error (.delete (set lowest.family) lowest cause))
      {pair ∈ owned | ¬(pair.2 = pod ∧ pair.1.rank < lowest.rank)} :=
    .removeAllStuck sole refused fun address only lower => absurd lower (none address only.1)
  rw [all] at stuck
  exact stuck

/-- The lowest address of a pod is forgotten first, and then what is left. -/
theorem Step.removeAll_lowest (owner : (lowest, pod) ∈ owned)
    (below : ∀ address, (address, pod) ∈ owned → address ≠ lowest → lowest.rank < address.rank)
    (accepted : owned.Sole lowest pod →
      complaint? (.delete (set lowest.family) [lowest]) = none)
    (rest : Step set complaint? (.removeAll pod) (owned \ {(lowest, pod)}) answer after) :
    Step set complaint? (.removeAll pod) owned answer after := by
  have elsewhere {address : Address} (different : address ≠ lowest) :
      Sole (owned \ {(lowest, pod)}) address pod ↔ owned.Sole address pod := by
    simp [Sole, different]
  cases rest with
  | removeAllDone others =>
      have same : {pair ∈ owned \ {(lowest, pod)} | pair.2 ≠ pod} = {pair ∈ owned | pair.2 ≠ pod} := by
        ext ⟨address, other⟩
        simp +contextual
      rw [same]
      refine .removeAllDone fun address sole => ?_
      by_cases head : address = lowest
      · subst head
        exact accepted sole
      · exact others address ((elsewhere head).mpr sole)
  | @removeAllStuck _ address _ cause sole refused lower =>
      have different : address ≠ lowest := by
        rintro rfl
        exact sole.1.2 rfl
      have above : lowest.rank < address.rank := below address sole.1.1 different
      have same : {pair ∈ owned \ {(lowest, pod)} | ¬(pair.2 = pod ∧ pair.1.rank < address.rank)} =
          {pair ∈ owned | ¬(pair.2 = pod ∧ pair.1.rank < address.rank)} := by
        ext ⟨place, other⟩
        by_cases head : place = lowest
        · subst head
          simp +contextual [Nat.not_le.mpr above]
        · simp [head]
      rw [same]
      refine .removeAllStuck ((elsewhere different).mp sole) refused fun other only low => ?_
      by_cases head : other = lowest
      · subst head
        exact accepted only
      · exact lower other ((elsewhere head).mpr only) low

end Ownership

namespace PeerSet

variable {set : Family → String} {peers next : PeerSet} {address : Address} {pod : PodKey}
  {contents after : Contents} {start store : Store} {backing : Backing}

/-- The backing sets are in place, by their handles and by their names. -/
def InPlace (backing : Backing) (start : Store) (peers : PeerSet) (contents : Contents) : Prop :=
  peers.backing = backing ∧ ∀ name, name ∈ contents.sets ↔ name ∈ start.contents.sets

theorem InPlace.add (h : InPlace backing start peers contents)
    (performed : (addPlan (address, pod) peers).perform contents = .ok (next, after)) :
    InPlace backing start next after := by
  rcases addPlan_perform performed with ⟨owners, -, rfl, rfl⟩ | ⟨set, -, -, added, rfl⟩
  · exact h
  · exact ⟨h.1, fun name => (Contents.perform_mem (.inl rfl) added name).trans (h.2 name)⟩

theorem InPlace.remove (h : InPlace backing start peers contents)
    (performed : (removePlan pod address peers).perform contents = .ok (next, after)) :
    InPlace backing start next after := by
  rcases removePlan_perform performed with
    ⟨-, rfl, rfl⟩ | ⟨owners, others, -, rfl, rfl⟩ | ⟨owners, set, -, -, -, deleted, rfl⟩
  · exact h
  · exact h
  · exact ⟨h.1, fun name => (Contents.perform_mem (.inr rfl) deleted name).trans (h.2 name)⟩

theorem InPlace.apply (h : InPlace backing start peers store.contents) (change : OwnerChange) :
    InPlace backing start (change.apply peers store).state (change.apply peers store).store.contents ∧
      (change.apply peers store).store.faults = store.faults := by
  cases change with
  | add address pod =>
      simp only [OwnerChange.apply, Outcome.map, addOwner_eq]
      exact ⟨Intent.carryOut_preserves (InPlace backing start) h fun _ _ performed =>
        h.add performed, Intent.carryOut_faults _ _ _⟩
  | remove address pod =>
      simp only [OwnerChange.apply, Outcome.map, removeOwner_eq]
      exact ⟨Intent.carryOut_preserves (InPlace backing start) h fun _ _ performed =>
        h.remove performed, Intent.carryOut_faults _ _ _⟩
  | removeAll pod =>
      simp only [OwnerChange.apply, Outcome.map, removeAll, removeEach_eq]
      exact ⟨Intent.each_preserves (removePlan pod) (InPlace backing start)
        (fun _ _ _ _ _ _ kept performed => kept.remove performed) h, Intent.each_faults _ _ _ _⟩

theorem InPlace.complaint? (h : InPlace backing start peers store.contents)
    (faults : store.faults = start.faults) (call : Call) (updates : call.op = .add ∨ call.op = .delete) :
    start.complaint? call = store.complaint? call :=
  Store.complaint?_congr updates faults.symm fun name => (h.2 name).symm

theorem addOwner_step (inPlace : InPlace backing start peers store.contents)
    (faults : store.faults = start.faults) (backed : ∀ family, backing.handle? family = set family)
    (address : Address) (pod : PodKey) :
    Ownership.Step set start.complaint? (.add address pod) peers.ownership
      ((peers.addOwner address pod store).answer.map some)
      (peers.addOwner address pod store).state.ownership := by
  rw [addOwner_eq]
  by_cases new : ∀ other, ¬peers.Owns other address
  · have handle : peers.backing.handle? address.family = set address.family := by
      rw [inPlace.1, backed]
    obtain ⟨changed, plan, grown⟩ := addPlan_of_new new handle
    have judged := inPlace.complaint? faults (.add (set address.family) [address]) (.inl rfl)
    rw [plan]
    cases complaint : store.complaint? (.add (set address.family) [address]) with
    | none =>
        obtain ⟨contents, answered⟩ := Store.complaint?_eq_none.mp complaint
        rw [Intent.carryOut_of_ok peers answered, grown]
        exact .addFirst new (judged.trans complaint)
    | some cause =>
        rw [Intent.carryOut_of_error peers (Store.complaint?_eq_some.mp complaint)]
        exact .addRefused new (judged.trans complaint)
  · obtain ⟨other, owner⟩ := not_forall_not.mp new
    obtain ⟨changed, plan, grown⟩ := addPlan_of_owned pod owner
    rw [plan, Intent.carryOut, grown]
    exact .addShared owner

theorem removePlan_step (inPlace : InPlace backing start peers store.contents)
    (faults : store.faults = start.faults) (backed : ∀ family, backing.handle? family = set family)
    (address : Address) (pod : PodKey) :
    Ownership.Step set start.complaint? (.remove address pod) peers.ownership
      (((removePlan pod address peers).carryOut peers store).answer.map some)
      ((removePlan pod address peers).carryOut peers store).state.ownership := by
  by_cases owner : peers.Owns pod address
  · by_cases sole : ∀ other, peers.Owns other address → other = pod
    · have handle : peers.backing.handle? address.family = set address.family := by
        rw [inPlace.1, backed]
      obtain ⟨changed, plan, shrunk⟩ := removePlan_of_sole owner sole handle
      have judged :=
        inPlace.complaint? faults (.delete (set address.family) [address]) (.inr rfl)
      rw [plan]
      cases complaint : store.complaint? (.delete (set address.family) [address]) with
      | none =>
          obtain ⟨contents, answered⟩ := Store.complaint?_eq_none.mp complaint
          rw [Intent.carryOut_of_ok peers answered, shrunk]
          exact .removeLast ⟨owner, sole⟩ (judged.trans complaint)
      | some cause =>
          rw [Intent.carryOut_of_error peers (Store.complaint?_eq_some.mp complaint)]
          exact .removeRefused ⟨owner, sole⟩ (judged.trans complaint)
    · obtain ⟨other, rest⟩ := not_forall.mp sole
      obtain ⟨sharer, different⟩ := Classical.not_imp.mp rest
      obtain ⟨changed, plan, shrunk⟩ := removePlan_of_shared owner different sharer
      rw [plan, Intent.carryOut, shrunk]
      exact .removeShared owner different sharer
  · rw [removePlan_of_stranger owner, Intent.carryOut]
    exact .removeAbsent owner

/-- The loop over the addresses of a pod, which are the ones it still owns, in order. -/
theorem removeEach_step {addresses : List Address}
    (sorted : Address.Sorted addresses)
    (owned : ∀ address, address ∈ addresses ↔ peers.Owns pod address)
    (inPlace : InPlace backing start peers store.contents)
    (faults : store.faults = start.faults)
    (backed : ∀ family, backing.handle? family = set family) :
    Ownership.Step set start.complaint? (.removeAll pod) peers.ownership
      ((Intent.each (removePlan pod) addresses peers store).answer.map fun _ => none)
      (Intent.each (removePlan pod) addresses peers store).state.ownership := by
  induction addresses generalizing peers store with
  | nil =>
      exact .removeAll_stranger fun address owns => List.not_mem_nil ((owned address).mpr owns)
  | cons lowest addresses ih =>
      -- The loop runs over a snapshot, and what is left of it is what the pod still owns.
      obtain ⟨lowestFirst, sorted⟩ := List.pairwise_cons.mp sorted
      have owner : (lowest, pod) ∈ peers.ownership := (owned lowest).mp List.mem_cons_self
      have below (address : Address) (owns : (address, pod) ∈ peers.ownership)
          (different : address ≠ lowest) : lowest.rank < address.rank :=
        lowestFirst address (List.mem_of_ne_of_mem different ((owned address).mpr owns))
      have step := removePlan_step inPlace faults backed lowest pod
      have removed (next : PeerSet) (after : Contents)
          (performed : (removePlan pod lowest peers).perform store.contents = .ok (next, after)) :
          InPlace backing start next after := inPlace.remove performed
      have kept := Intent.carryOut_preserves (InPlace backing start) inPlace removed
      have same := Intent.carryOut_faults (removePlan pod lowest peers) peers store
      rw [Intent.each]
      generalize (removePlan pod lowest peers).carryOut peers store = outcome at step kept same
      obtain ⟨answer, next, after⟩ := outcome
      cases answer with
      | error error =>
          obtain ⟨unchanged, sole, cause, refused, rfl⟩ := step.remove_refused
          rw [unchanged]
          exact .removeAll_refused below sole refused
      | ok called =>
          obtain ⟨shrunk, accepted⟩ := step.removed owner
          have left := mem_rest_iff lowestFirst owned shrunk
          have rest := ih sorted left kept (same.trans faults)
          rw [shrunk] at rest
          exact rest.removeAll_lowest owner below accepted

theorem apply_step (inPlace : InPlace backing start peers store.contents)
    (faults : store.faults = start.faults) (backed : ∀ family, backing.handle? family = set family)
    (change : OwnerChange) :
    Ownership.Step set start.complaint? change peers.ownership (change.apply peers store).answer
      (change.apply peers store).state.ownership := by
  cases change with
  | add address pod => exact addOwner_step inPlace faults backed address pod
  | remove address pod =>
      simp only [OwnerChange.apply, Outcome.map, removeOwner_eq]
      exact removePlan_step inPlace faults backed address pod
  | removeAll pod =>
      simp only [OwnerChange.apply, Outcome.map, removeAll, removeEach_eq]
      exact removeEach_step (peers.ownedBy_sorted pod) (fun _ => mem_ownedBy) inPlace faults backed

end PeerSet

/-- Changes one after the other. What the store refuses is set anew before each. -/
def OwnerChange.run : List (Faults × OwnerChange) → PeerSet → Store →
    List (Except PeerError (Option Bool)) × PeerSet
  | [], peers, _ => ([], peers)
  | (faults, change) :: steps, peers, store =>
    let outcome := change.apply peers (store.withFaults faults)
    let (answers, last) := run steps outcome.state outcome.store
    (outcome.answer :: answers, last)

open PeerSet (InPlace) in
theorem OwnerChange.run_follows {set : Family → String} {backing : Backing} {start store : Store}
    {peers : PeerSet} (inPlace : InPlace backing start peers store.contents)
    (backed : ∀ family, backing.handle? family = set family)
    (steps : List (Faults × OwnerChange)) :
    Ownership.Run set start steps peers.ownership (run steps peers store).1
      (run steps peers store).2.ownership := by
  induction steps generalizing peers store with
  | nil => exact .done
  | cons step steps ih =>
      obtain ⟨faults, change⟩ := step
      have placed : InPlace backing (start.withFaults faults) peers
          (store.withFaults faults).contents := inPlace
      have follows := PeerSet.apply_step placed rfl backed change
      exact .step follows (ih (placed.apply change).1)

/-- The owners of a peer set are determined by the rules of the relation between
addresses and pods, for all changes in any order under any faults. -/
theorem owners_refine_relation (set : Family → String) (peers : PeerSet) (store : Store)
    (backed : ∀ family, peers.backing.handle? family = set family)
    (steps : List (Faults × OwnerChange)) :
    (∀ answers after, Ownership.Run set store steps peers.ownership answers after ↔
      answers = (OwnerChange.run steps peers store).1 ∧
        after = (OwnerChange.run steps peers store).2.ownership) ∧
    ∀ other : PeerSet, other.ownership = (OwnerChange.run steps peers store).2.ownership →
      other.owners = (OwnerChange.run steps peers store).2.owners := by
  have inPlace : PeerSet.InPlace peers.backing store peers store.contents :=
    ⟨rfl, fun _ => Iff.rfl⟩
  have follows := OwnerChange.run_follows inPlace backed steps
  refine ⟨fun answers after => ⟨fun run => run.deterministic follows, ?_⟩,
    fun other same => PeerSet.owners_eq_of_ownership same⟩
  rintro ⟨rfl, rfl⟩
  exact follows

def backedPeers : PeerSet :=
  { name := "ns1", backing := { v4 := some "ns1_v4", v6 := some "ns1_v6" } }

def backedStore : Store :=
  { contents := (Contents.ensure {} "ns1_v4").ensure "ns1_v6" }

/-- A pod gives up the address it shares, but not the one that cannot be deleted. -/
def stuckRemoval : List (Faults × OwnerChange) :=
  [({}, .add (.v4 ⟨10, 0, 0, 1⟩) ⟨"ns1", "pod1"⟩),
    ({ failing := [.add] }, .add (.v4 ⟨10, 0, 0, 1⟩) ⟨"ns1", "pod2"⟩),
    ({}, .add (.v6 ⟨0xfd00, 0, 0, 0, 0, 0, 0, 1⟩) ⟨"ns1", "pod1"⟩),
    ({ blocked := [(.delete, "ns1_v6")] }, .removeAll ⟨"ns1", "pod1"⟩)]

theorem owners_refine_relation_stuck_removal :
    (∀ family, backedPeers.backing.handle? family = some (Family.setName family "ns1")) ∧
    ∃ after, Ownership.Run (fun family => family.setName "ns1") backedStore stuckRemoval
      backedPeers.ownership
      [.ok (some true), .ok (some false), .ok (some true),
        .error (.delete "ns1_v6" (.v6 ⟨0xfd00, 0, 0, 0, 0, 0, 0, 1⟩) (.failure "ns1_v6" "blocked"))]
      after := by
  have backed : ∀ family, backedPeers.backing.handle? family =
      some (Family.setName family "ns1") := by
    intro family
    cases family <;> rfl
  have answers : (OwnerChange.run stuckRemoval backedPeers backedStore).1 =
      [.ok (some true), .ok (some false), .ok (some true),
        .error (.delete "ns1_v6" (.v6 ⟨0xfd00, 0, 0, 0, 0, 0, 0, 1⟩)
          (.failure "ns1_v6" "blocked"))] := by decide +kernel
  obtain ⟨follows, -⟩ := owners_refine_relation (fun family => family.setName "ns1") backedPeers
    backedStore backed stuckRemoval
  exact ⟨backed, _, (follows _ _).mpr ⟨answers.symm, rfl⟩⟩

end PolicyAcl
