import PolicyAcl.Proofs.History
import PolicyAcl.Proofs.Spending

/-! Destroying a peer set, again and again until nothing is left. Every attempt destroys the
backing sets that are left in turn, up to the first that the store keeps, and no attempt comes
back to a set that is gone. -/
namespace PolicyAcl

open Store (Entry Faults)

theorem Backing.Distinct.nodup {backing : Backing} (distinct : backing.Distinct) :
    (backing.remaining.map (·.2)).Nodup := by
  have apart := distinct .v6 .v4
  cases v4 : backing.handle? .v4 <;> cases v6 : backing.handle? .v6 <;> simp_all [remaining]

/-- Sets are destroyed one after the other, until one is refused for a cause. -/
structure Store.Destroys (sets : List (Family × String)) (store : Store)
    (done left : List (Family × String)) (cause : Option Store.Error) (after : Store) : Prop where
  split : sets = done ++ left
  stops : cause = none ↔ left = []
  gone : ∀ pair ∈ done, after.addresses? pair.2 = none
  spared : ∀ set, (∀ pair ∈ done, pair.2 ≠ set) → after.addresses? set = store.addresses? set
  attempts : ∃ made, after.journal = made ++ store.journal ∧
    made.reverse.map (·.call) = (done ++ left.take 1).map (.destroy ·.2) ∧
    made.reverse.map (·.error) = done.map (fun _ => none) ++ (left.take 1).map fun _ => cause

namespace Store

variable {sets done left : List (Family × String)} {store between after : Store}
  {cause : Option Error} {pair : Family × String}

theorem Destroys.nil (store : Store) : Destroys [] store [] [] none store :=
  ⟨rfl, by simp, by simp, fun _ _ => rfl, [], rfl, rfl, rfl⟩

theorem addresses?_destroyed (accepted : store.submit (.destroy pair.2) = (.ok (), after)) :
    after.addresses? pair.2 = none := by
  have absent := Contents.perform_sets (perform_of_accepted accepted) pair.2
  simp [addresses?, absent, Call.set, Call.effect]

/-- What is gone stays gone: it is destroyed once more, or it is spared. -/
theorem stays_gone (gone : ∀ pair ∈ done, after.addresses? pair.2 = none)
    (spared : ∀ set, (∀ pair ∈ done, pair.2 ≠ set) →
      after.addresses? set = between.addresses? set)
    {set : String} (absent : between.addresses? set = none) : after.addresses? set = none := by
  by_cases again : ∀ pair ∈ done, pair.2 ≠ set
  · rw [spared set again, absent]
  · push Not at again
    obtain ⟨pair, member, rfl⟩ := again
    exact gone pair member

theorem Destroys.more (accepted : store.submit (.destroy pair.2) = (.ok (), between))
    (h : Destroys sets between done left cause after) :
    Destroys (pair :: sets) store (pair :: done) left cause after := by
  have other (set : String) (different : set ≠ pair.2) :
      between.addresses? set = store.addresses? set := by
    have spared := ((store.takes (.destroy pair.2)).spares set different).1
    rwa [accepted] at spared
  obtain ⟨rfl, stops, gone, spared, made, called, calls, errors⟩ := h
  refine ⟨rfl, stops, ?_, fun set kept => ?_, made ++ [Attempt.entry ⟨store, .destroy pair.2⟩], ?_, ?_, ?_⟩
  · intro first member
    rcases List.mem_cons.mp member with rfl | later
    · exact stays_gone gone spared (addresses?_destroyed accepted)
    · exact gone first later
  · obtain ⟨different, later⟩ := List.forall_mem_cons.mp kept
    rw [spared set later, other set (Ne.symm different)]
  · have journal := submit_journal store (.destroy pair.2)
    rw [accepted] at journal
    rw [called, journal, List.append_assoc, List.singleton_append]
  · rw [List.reverse_append, List.map_append, calls]
    rfl
  · have error : (Attempt.entry ⟨store, .destroy pair.2⟩).error = none := by
      rw [Attempt.entry, Attempt.answer, accepted]
      rfl
    rw [List.reverse_append, List.map_append, errors, List.reverse_singleton, List.map_singleton, error]
    rfl

theorem Destroys.stuck {reason : Error}
    (refused : store.submit (.destroy pair.2) = (.error reason, after)) :
    Destroys (pair :: sets) store [] (pair :: sets) (some reason) after := by
  obtain rfl := eq_of_refused refused
  exact ⟨rfl, by simp, by simp, fun _ _ => rfl, [_], rfl, rfl, rfl⟩

end Store

namespace PeerSet

theorem destroy_released {peers : PeerSet} {family : Family} (store : Store)
    (released : peers.backing.handle? family = none) :
    (peers.destroy store).state.backing.handle? family = none := by
  rw [destroy_eq]
  refine Intent.each_preserves destroyPlan (fun next _ => next.backing.handle? family = none)
    (fun item _ state contents next after released performed => ?_) released
  rw [destroyPlan_next performed, released, ite_self]

/-- The sets that are left are destroyed in turn, and those that are then left keep their
handles. -/
theorem destroy_destroys (peers : PeerSet) (store : Store) :
    ∃ done cause, Store.Destroys peers.backing.remaining store done
        (peers.destroy store).state.backing.remaining cause (peers.destroy store).store ∧
      (peers.destroy store).answer =
        match cause, (peers.destroy store).state.backing.remaining with
        | some reason, (_, set) :: _ => .error (.destroy set reason)
        | _, _ => .ok () := by
  -- A turn puts the set it destroys before those of the turns after it.
  induction peers, store using destroy.induct with
  | case1 peers store finished =>
      rw [destroy_finished finished, finished]
      exact ⟨[], none, .nil store, rfl⟩
  | case2 peers store family set rest first after accepted _ ih =>
      rw [destroy_of_accepted first accepted, first]
      rw [Backing.remaining_forget first] at ih
      obtain ⟨done, cause, destroys, answered⟩ := ih
      exact ⟨(family, set) :: done, cause, destroys.more accepted, answered⟩
  | case3 peers store family set rest first reason after refused =>
      rw [destroy_of_refused first refused, first]
      exact ⟨[], some reason, .stuck refused, rfl⟩

/-- What one attempt at destroying a peer set comes to. -/
structure Attempted (peers : PeerSet) (store : Store) : Prop where
  rest : (peers.destroy store).state =
    { peers with backing := (peers.destroy store).state.backing }
  progress : ∃ done made,
    peers.backing.remaining = done ++ (peers.destroy store).state.backing.remaining ∧
    (∀ pair ∈ done, (peers.destroy store).store.addresses? pair.2 = none) ∧
    (∀ pair ∈ (peers.destroy store).state.backing.remaining,
      (peers.destroy store).store.addresses? pair.2 = store.addresses? pair.2) ∧
    (∀ set, (∀ pair ∈ done, pair.2 ≠ set) →
      (peers.destroy store).store.addresses? set = store.addresses? set) ∧
    (peers.destroy store).store.journal = made ++ store.journal ∧
    made.reverse.map (·.call) =
      (done ++ (peers.destroy store).state.backing.remaining.take 1).map (.destroy ·.2) ∧
    ((peers.destroy store).answer = .ok () ↔ ∀ entry ∈ made, entry.error = none)
  done : (peers.destroy store).answer = .ok () → (peers.destroy store).state.backing.remaining = []
  stopped : ∀ error, (peers.destroy store).answer = .error error →
    ∃ family set cause rest, error = .destroy set cause ∧
      (peers.destroy store).state.backing.remaining = (family, set) :: rest

theorem destroy_attempted {peers : PeerSet} (distinct : peers.backing.Distinct) (store : Store) :
    peers.Attempted store := by
  obtain ⟨done, cause, ⟨split, stops, gone, spared, made, called, calls, errors⟩, answered⟩ :=
    peers.destroy_destroys store
  have nodup := distinct.nodup
  rw [split, List.map_append, List.nodup_append] at nodup
  have kept : ∀ pair ∈ (peers.destroy store).state.backing.remaining,
      (peers.destroy store).store.addresses? pair.2 = store.addresses? pair.2 := by
    intro pair left
    refine spared pair.2 fun other member => ?_
    exact nodup.2.2 other.2 (List.mem_map_of_mem member) pair.2 (List.mem_map_of_mem left)
  have succeeded : (∀ entry ∈ made, entry.error = none) ↔
      ∀ error ∈ made.reverse.map (·.error), error = none := by
    simp
  have rest := peers.destroy_rest store
  -- A cause was given exactly if sets are left, and then the last call is the one that failed.
  cases left : (peers.destroy store).state.backing.remaining with
  | nil =>
      rw [left] at answered errors
      obtain rfl : cause = none := stops.mpr left
      have all : ∀ entry ∈ made, entry.error = none := by
        rw [succeeded, errors]
        simp
      refine ⟨rest, ⟨done, made, split, gone, kept, spared, called, calls, ?_⟩, fun _ => left, ?_⟩
      · exact ⟨fun _ => all, fun _ => answered⟩
      · intro error failed
        rw [answered] at failed
        cases failed
  | cons pair later =>
      rw [left] at answered errors
      obtain ⟨reason, rfl⟩ : ∃ reason, cause = some reason := by
        refine Option.ne_none_iff_exists'.mp fun none => ?_
        rw [stops, left] at none
        cases none
      have missed : ¬∀ entry ∈ made, entry.error = none := by
        rw [succeeded, errors]
        simp
      have stopped : (peers.destroy store).answer = .error (.destroy pair.2 reason) := answered
      have unfinished : (peers.destroy store).answer ≠ .ok () := by simp [stopped]
      refine ⟨rest, ⟨done, made, split, gone, kept, spared, called, calls, ?_⟩,
        fun ok => absurd ok unfinished, fun error failed => ?_⟩
      · exact ⟨fun ok => absurd ok unfinished, fun all => absurd all missed⟩
      · obtain rfl := Except.error.inj (stopped.symm.trans failed)
        exact ⟨pair.1, pair.2, reason, later, rfl, left⟩

theorem distinct_frugal : Frugal PeerSet.destroy (fun peers => peers.backing.Distinct) DestroySpent := by
  have spending : Spending destroyPlan (fun peers => peers.backing.Distinct) DestroySpent :=
    destroyPlan_spending (fun _ distinct => distinct) fun _ _ distinct handles family other set
      backed backed' => distinct family other set (handles family set backed)
        (handles other set backed')
  intro peers store distinct
  rw [destroy_eq]
  exact spending.each [.v4, .v6] peers store distinct

/-- Attempts at destroying a peer set, under whatever faults there are each time. -/
def teardown (peers : PeerSet) (store : Store) : List Faults → PeerSet × Store
  | [] => (peers, store)
  | faults :: settings =>
    teardown (peers.destroy (store.withFaults faults)).state
      (peers.destroy (store.withFaults faults)).store settings

/-- How far attempts have come between them. -/
structure Undone (peers : PeerSet) (store : Store) (last : PeerSet) (after : Store) : Prop where
  rest : last = { peers with backing := last.backing }
  gone : ∃ done, peers.backing.remaining = done ++ last.backing.remaining ∧
    (∀ pair ∈ done, after.addresses? pair.2 = none) ∧
    ∀ set, (∀ pair ∈ done, pair.2 ≠ set) → after.addresses? set = store.addresses? set
  calls : ∃ made, after.journal = made ++ store.journal ∧
    (∀ entry ∈ made, ∃ pair ∈ peers.backing.remaining, entry.call = .destroy pair.2) ∧
    Advance DestroySpent peers last made

theorem Undone.refl (peers : PeerSet) (store : Store) : peers.Undone store peers store :=
  ⟨rfl, ⟨[], rfl, by simp, fun _ _ => rfl⟩, [], rfl, by simp, .refl peers⟩

theorem undone_destroy {peers : PeerSet} (distinct : peers.backing.Distinct) (store : Store)
    (faults : Faults) :
    peers.Undone store (peers.destroy (store.withFaults faults)).state
      (peers.destroy (store.withFaults faults)).store := by
  obtain ⟨rest, ⟨done, made, split, gone, -, spared, called, calls, -⟩, -, -⟩ :=
    destroy_attempted distinct (store.withFaults faults)
  obtain ⟨-, entries, called', advance⟩ := distinct_frugal peers (store.withFaults faults) distinct
  obtain rfl : entries = made := List.append_cancel_right (called'.symm.trans called)
  refine ⟨rest, ⟨done, split, gone, spared⟩, entries, called, fun entry member => ?_, advance⟩
  have listed : entry.call ∈ entries.reverse.map (·.call) :=
    List.mem_map_of_mem (List.mem_reverse.mpr member)
  rw [calls] at listed
  obtain ⟨pair, listed, same⟩ := List.mem_map.mp listed
  refine ⟨pair, ?_, same.symm⟩
  rw [split]
  exact (List.Sublist.append_left (List.take_sublist 1 _) done).subset listed

theorem Undone.trans {peers middle last : PeerSet} {store between after : Store}
    (one : peers.Undone store middle between) (two : middle.Undone between last after) :
    peers.Undone store last after := by
  obtain ⟨rest, ⟨done, split, gone, spared⟩, made, called, within, advance⟩ := one
  obtain ⟨rest', ⟨done', split', gone', spared'⟩, made', called', within', advance'⟩ := two
  refine ⟨?_, ⟨done ++ done', by rw [split, split', List.append_assoc], fun pair member => ?_,
    fun set kept => ?_⟩, made' ++ made, by rw [called', called, List.append_assoc],
    fun entry member => ?_, advance.trans advance'⟩
  · rw [rest] at rest'
    exact rest'
  · rcases List.mem_append.mp member with old | new
    · exact Store.stays_gone gone' spared' (gone pair old)
    · exact gone' pair new
  · obtain ⟨before, later⟩ := List.forall_mem_append.mp kept
    rw [spared' set later, spared set before]
  · rcases List.mem_append.mp member with late | early
    · obtain ⟨pair, left, same⟩ := within' entry late
      exact ⟨pair, by rw [split]; exact List.mem_append_right _ left, same⟩
    · exact within entry early

theorem teardown_undone {peers : PeerSet} (distinct : peers.backing.Distinct) (store : Store)
    (settings : List Faults) :
    (peers.teardown store settings).1.backing.Distinct ∧
      peers.Undone store (peers.teardown store settings).1 (peers.teardown store settings).2 := by
  induction settings generalizing peers store with
  | nil => exact ⟨distinct, .refl peers store⟩
  | cons faults settings ih =>
      have kept := (distinct_frugal peers (store.withFaults faults) distinct).1
      obtain ⟨still, later⟩ := ih kept (peers.destroy (store.withFaults faults)).store
      exact ⟨still, (undone_destroy distinct store faults).trans later⟩

end PeerSet

/-- Every attempt at destroying a peer set destroys the sets that are left in turn, IPv4 first,
up to one that the store keeps; that one and the ones after it stay as they are. Over any
number of attempts no call that succeeded is made again, and none is made when nothing is left. -/
theorem destroying_progresses_without_repeats (peers : PeerSet) (distinct : peers.backing.Distinct)
    (store : Store) (settings : List Faults) :
    let last := (peers.teardown store settings).1
    let after := (peers.teardown store settings).2
    last = { peers with backing := last.backing } ∧
    (∃ done, peers.backing.remaining = done ++ last.backing.remaining ∧
      (∀ pair ∈ done, after.addresses? pair.2 = none) ∧
      ∀ set, (∀ pair ∈ done, pair.2 ≠ set) → after.addresses? set = store.addresses? set) ∧
    (∃ made, after.journal = made ++ store.journal ∧
      (∀ entry ∈ made, ∃ pair ∈ peers.backing.remaining, entry.call = .destroy pair.2) ∧
      made.Pairwise fun later earlier => earlier.error = none → later.call ≠ earlier.call) ∧
    (∀ faults, last.Attempted (after.withFaults faults)) ∧
    (last.backing.remaining = [] → ∀ store', last.destroy store' = ⟨.ok (), last, store'⟩) := by
  intro last after
  obtain ⟨still, rest, gone, made, called, within, advance⟩ :=
    PeerSet.teardown_undone distinct store settings
  refine ⟨rest, gone, ⟨made, called, within, ?_⟩,
    fun faults => PeerSet.destroy_attempted still _, PeerSet.destroy_finished⟩
  refine advance.unrepeated.imp_of_mem fun {later earlier} _ member unrepeated succeeded => ?_
  obtain ⟨pair, -, same⟩ := within earlier member
  exact unrepeated succeeded (by simp [same, Store.Call.op])

/-- A peer set whose backing sets have names of their own. -/
def foundPeers : PeerSet := { name := "ns1", backing := { v4 := some "four", v6 := some "six" } }

def foundStore : Store :=
  (((({} : Store).submit (.ensure "four")).2.submit (.ensure "six")).2.submit
    (.add "six" [.v6 ⟨0, 0, 0, 0, 0, 0, 0, 1⟩])).2

/-- The IPv6 set is kept twice, for different reasons. -/
def stubborn : List Faults := [{ blocked := [(.destroy, "six")] }, { failing := [.destroy] }]

/-- In the end it is given up. -/
def yielding : List Faults := stubborn ++ [({} : Faults)]

theorem destroying_progresses_without_repeats_stubborn :
    foundPeers.backing.Distinct ∧
    (foundPeers.teardown foundStore stubborn).1.backing.remaining = [(.v6, "six")] ∧
    (foundPeers.teardown foundStore stubborn).2.addresses? "four" = none ∧
    (foundPeers.teardown foundStore stubborn).2.addresses? "six" =
      some [.v6 ⟨0, 0, 0, 0, 0, 0, 0, 1⟩] ∧
    (∃ made, (foundPeers.teardown foundStore stubborn).2.journal = made ++ foundStore.journal ∧
      made.Pairwise fun later earlier => earlier.error = none → later.call ≠ earlier.call) ∧
    (foundPeers.teardown foundStore yielding).1.backing.remaining = [] ∧
    ∀ store, (foundPeers.teardown foundStore yielding).1.destroy store =
      ⟨.ok (), (foundPeers.teardown foundStore yielding).1, store⟩ := by
  have distinct : foundPeers.backing.Distinct := by
    intro family other set backed backed'
    revert backed backed'
    cases family <;> cases other <;> simp [foundPeers, Backing.handle?] <;> rintro rfl <;> decide
  have left : (foundPeers.teardown foundStore stubborn).1.backing.remaining = [(.v6, "six")] := by
    decide +kernel
  have finished : (foundPeers.teardown foundStore yielding).1.backing.remaining = [] := by
    decide +kernel
  obtain ⟨-, ⟨done, split, gone, spared⟩, ⟨made, called, -, apart⟩, -, -⟩ :=
    destroying_progresses_without_repeats foundPeers distinct foundStore stubborn
  obtain ⟨-, -, -, -, idle⟩ :=
    destroying_progresses_without_repeats foundPeers distinct foundStore yielding
  obtain rfl : done = [(.v4, "four")] := by
    rw [left] at split
    exact (List.append_cancel_right (show [(Family.v4, "four")] ++ [(.v6, "six")] = _ from split)).symm
  refine ⟨distinct, left, gone (.v4, "four") (by simp), ?_, ⟨made, called, apart⟩, finished, idle finished⟩
  rw [spared "six" (by simp)]
  decide +kernel

end PolicyAcl
