import PolicyAcl.Proofs.Coherence

/-! The calls that a change of a peer set makes, and what becomes of the peer set with each
of them. An address enters when the store accepts its add, and leaves when the store accepts
its delete, so what the store accepts for an address takes it in and gives it up in turns. -/
namespace PolicyAcl

open Store (Call Entry Op)

namespace Store

def Call.addresses : Call → List Address
  | .add _ addresses => addresses
  | .delete _ addresses => addresses
  | _ => []

/-- A call of this kind that the store accepted. -/
def Entry.did (op : Op) (entry : Entry) : Bool := entry.call.op = op && entry.error = none

theorem Entry.did_accepted (op : Op) (call : Call) (reached : Bool) :
    Entry.did op ⟨call, reached, none⟩ = decide (call.op = op) := by
  simp [Entry.did]

/-- What the store accepted to do with an address. -/
def accepted (address : Address) (entries : List Entry) : List Op :=
  (entries.filter fun entry => entry.error = none ∧ address ∈ entry.call.addresses).map (·.call.op)

/-- An address is added and deleted in turns, the latest first. The flag tells whether it
is in at the end. -/
inductive Turns : List Op → Bool → Prop
  | out : Turns [] false
  | add {ops : List Op} : Turns ops false → Turns (.add :: ops) true
  | delete {ops : List Op} : Turns ops true → Turns (.delete :: ops) false

end Store

open Store (accepted Turns)

namespace Intent

variable {σ α : Type}

/-- What the journal gains. -/
def entries (intent : Intent σ) (store : Store) : List Entry :=
  match intent with
  | .submit call _ _ => [⟨call, !store.faults.blocks call, store.complaint? call⟩]
  | _ => []

theorem carryOut_journal (intent : Intent σ) (state : σ) (store : Store) :
    (intent.carryOut state store).store.journal = intent.entries store ++ store.journal := by
  cases intent with
  | quiet next => rfl
  | refuse error => rfl
  | submit call next complain =>
      cases answered : store.answer call with
      | ok contents =>
          rw [carryOut_of_ok state answered, entries, Store.complaint?, answered]
          rfl
      | error cause =>
          rw [carryOut_of_error state answered, entries, Store.complaint?, answered]
          rfl

/-- What every item makes of the state with its calls, the list makes of it with all
calls, the latest first. -/
theorem each_makes (plan : α → σ → Intent σ) (Makes : σ → List Entry → σ → Prop)
    (none : ∀ state, Makes state [] state)
    (more : ∀ state middle next first second, Makes state first middle → Makes middle second next →
      Makes state (second ++ first) next)
    {store : Store}
    (step : ∀ item state (now : Store), now.faults = store.faults →
      Makes state ((plan item state).entries now) ((plan item state).carryOut state now).state)
    (items : List α) (state : σ) :
    ∃ made, (each plan items state store).store.journal = made ++ store.journal ∧
      Makes state made (each plan items state store).state := by
  induction items generalizing state store with
  | nil => exact ⟨[], rfl, none state⟩
  | cons item items ih =>
      have first := step item state store rfl
      have called := carryOut_journal (plan item state) state store
      have same := carryOut_faults (plan item state) state store
      rw [each]
      generalize (plan item state).entries store = made at first called
      generalize (plan item state).carryOut state store = outcome at first called same
      obtain ⟨answer, middle, between⟩ := outcome
      cases answer with
      | ok done =>
          obtain ⟨rest, calledToo, second⟩ :=
            ih (fun item state now faults => step item state now (faults.trans same)) middle
          refine ⟨rest ++ made, ?_, more _ _ _ _ _ first second⟩
          rw [calledToo, called, List.append_assoc]
      | error error => exact ⟨made, called, first⟩

theorem entries_reached (intent : Intent σ) (store : Store) :
    ∀ entry ∈ intent.entries store, entry.reached = !store.faults.blocks entry.call := by
  cases intent with
  | quiet next => simp [entries]
  | refuse error => simp [entries]
  | submit call next complain => simp [entries]

end Intent

namespace PeerSet

variable {start peers next : PeerSet} {made later : List Entry} {address : Address} {pod : PodKey}
  {owners : Owners}

theorem contains_insert (peers : PeerSet) (address other : Address) (owners : Owners) :
    contains { peers with owners := peers.owners.insert address owners } other =
      (decide (other = address) || peers.contains other) := by
  rw [Bool.eq_iff_iff]
  simp [contains, eq_comm (a := other)]

theorem contains_erase (peers : PeerSet) (address other : Address) :
    contains { peers with owners := peers.owners.erase address } other =
      (decide (other ≠ address) && peers.contains other) := by
  rw [Bool.eq_iff_iff]
  simp [contains, eq_comm (a := other)]

theorem size_insert_of_owned (owned : address ∈ peers.owners) :
    size { peers with owners := peers.owners.insert address owners } = peers.size :=
  Std.ExtTreeMap.size_insert.trans (if_pos owned)

theorem size_insert_of_unowned (unowned : address ∉ peers.owners) :
    size { peers with owners := peers.owners.insert address owners } = peers.size + 1 :=
  Std.ExtTreeMap.size_insert.trans (if_neg unowned)

theorem size_erase_of_owned (owned : address ∈ peers.owners) :
    size { peers with owners := peers.owners.erase address } + 1 = peers.size := by
  have positive : peers.owners.size ≠ 0 := by
    intro empty
    rw [Std.ExtTreeMap.eq_empty_iff_size_eq_zero.mpr empty] at owned
    exact absurd owned Std.ExtTreeMap.not_mem_empty
  have smaller : (peers.owners.erase address).size = peers.owners.size - 1 :=
    Std.ExtTreeMap.size_erase.trans (if_pos owned)
  rw [PeerSet.size, PeerSet.size, smaller]
  omega

/-- A call on one address, and on the backing set of its family. -/
def Aimed (backing : Backing) (call : Call) : Prop :=
  ∃ address set, backing.handle? address.family = some set ∧
    (call = .add set [address] ∨ call = .delete set [address])

/-- How a peer set changes along with its calls, the latest first. -/
inductive Trail (start : PeerSet) : List Entry → PeerSet → Prop
  | start : Trail start [] start
  | share {peers : PeerSet} {made address owners} :
      Trail start made peers → address ∈ peers.owners →
      Trail start made { peers with owners := peers.owners.insert address owners }
  | enter {peers : PeerSet} {made address owners set reached} :
      Trail start made peers → address ∉ peers.owners →
      peers.backing.handle? address.family = some set →
      Trail start (⟨.add set [address], reached, none⟩ :: made)
        { peers with owners := peers.owners.insert address owners }
  | leave {peers : PeerSet} {made address set reached} :
      Trail start made peers → address ∈ peers.owners →
      peers.backing.handle? address.family = some set →
      Trail start (⟨.delete set [address], reached, none⟩ :: made)
        { peers with owners := peers.owners.erase address }
  | refused {peers : PeerSet} {made call reached cause} :
      Trail start made peers → Aimed peers.backing call →
      Trail start (⟨call, reached, some cause⟩ :: made) peers

namespace Trail

theorem trans (first : Trail start made peers) (second : Trail peers later next) :
    Trail start (later ++ made) next := by
  induction second with
  | start => exact first
  | share _ owned ih => exact ih.share owned
  | enter _ out handle ih => exact ih.enter out handle
  | leave _ owned handle ih => exact ih.leave owned handle
  | refused _ aimed ih => exact ih.refused aimed

theorem backing (trail : Trail start made next) : next.backing = start.backing := by
  induction trail with
  | start => rfl
  | share _ _ ih => exact ih
  | enter _ _ _ ih => exact ih
  | leave _ _ _ ih => exact ih
  | refused _ _ ih => exact ih

theorem name (trail : Trail start made next) : next.name = start.name := by
  induction trail with
  | start => rfl
  | share _ _ ih => exact ih
  | enter _ _ _ ih => exact ih
  | leave _ _ _ ih => exact ih
  | refused _ _ ih => exact ih

theorem aimed (trail : Trail start made next) :
    ∀ entry ∈ made, Aimed start.backing entry.call := by
  induction trail with
  | start => exact fun entry member => nomatch member
  | share _ _ ih => exact ih
  | @enter _ _ address _ set _ trail _ handle ih =>
      rw [trail.backing] at handle
      exact List.forall_mem_cons.mpr ⟨⟨address, set, handle, .inl rfl⟩, ih⟩
  | @leave _ _ address set _ trail _ handle ih =>
      rw [trail.backing] at handle
      exact List.forall_mem_cons.mpr ⟨⟨address, set, handle, .inr rfl⟩, ih⟩
  | refused trail aimed ih =>
      rw [trail.backing] at aimed
      exact List.forall_mem_cons.mpr ⟨aimed, ih⟩

theorem accepted_other {entry : Entry} (other : address ∉ entry.call.addresses) :
    accepted address (entry :: made) = accepted address made := by
  simp [accepted, other]

/-- The edges between no owner and some are met in turns. -/
theorem turns (trail : Trail start made next) (unowned : start.owners = ∅) (address : Address) :
    Turns (accepted address made) (next.contains address) := by
  induction trail with
  | start =>
      rw [contains, unowned, Std.ExtTreeMap.contains_empty]
      exact .out
  | @share peers _ place owners _ owned ih =>
      have same : (decide (address = place) || peers.contains address) = peers.contains address := by
        by_cases same : address = place
        · subst same
          exact (Bool.or_eq_right_iff_imp.mpr fun _ => owned)
        · simp [same]
      rw [contains_insert, same]
      exact ih
  | @enter peers made place owners set reached _ out _ ih =>
      rw [contains_insert]
      by_cases same : address = place
      · subst same
        have before : peers.contains address = false := Bool.eq_false_iff.mpr out
        rw [before] at ih
        simpa [accepted, Store.Call.addresses, Store.Call.op] using ih.add
      · rw [accepted_other (by simpa [Store.Call.addresses] using same)]
        simpa [same] using ih
  | @leave peers made place set reached _ owned _ ih =>
      rw [contains_erase]
      by_cases same : address = place
      · subst same
        have before : peers.contains address = true := owned
        rw [before] at ih
        simpa [accepted, Store.Call.addresses, Store.Call.op] using ih.delete
      · rw [accepted_other (by simpa [Store.Call.addresses] using same)]
        simpa [same] using ih
  | refused _ _ ih => simpa [accepted] using ih

/-- Each call that the store accepted on the way added an owned address or took one away. -/
theorem size (trail : Trail start made next) :
    next.size + made.countP (·.did .delete) = start.size + made.countP (·.did .add) := by
  induction trail with
  | start => rfl
  | share _ owned ih => rw [size_insert_of_owned owned, ih]
  | enter _ out _ ih =>
      simp only [size_insert_of_unowned out, List.countP_cons, Entry.did_accepted]
      simp only [Call.op, reduceCtorEq, decide_false, decide_true, if_true, if_false]
      omega
  | leave _ owned _ ih =>
      have smaller := size_erase_of_owned owned
      simp only [List.countP_cons, Entry.did_accepted]
      simp only [Call.op, reduceCtorEq, decide_false, decide_true, if_true, if_false]
      omega
  | refused _ _ ih => simpa [Entry.did] using ih

end Trail

theorem trail_of_submit {call : Call} {next : PeerSet} {complain : Store.Error → PeerError}
    (store : Store) (aimed : Aimed peers.backing call)
    (changes : ∀ reached, Trail peers [⟨call, reached, none⟩] next) :
    Trail peers ((Intent.submit call next complain).entries store)
      ((Intent.submit call next complain).carryOut peers store).state := by
  cases answered : store.answer call with
  | ok contents =>
      have accepted : store.complaint? call = none := Store.complaint?_eq_none.mpr ⟨contents, answered⟩
      rw [Intent.carryOut_of_ok peers answered, Intent.entries, accepted]
      exact changes _
  | error cause =>
      rw [Intent.carryOut_of_error peers answered, Intent.entries,
        Store.complaint?_eq_some.mpr answered]
      exact Trail.start.refused aimed

theorem addPlan_trail (entry : Address × PodKey) (peers : PeerSet) (store : Store) :
    Trail peers ((addPlan entry peers).entries store)
      ((addPlan entry peers).carryOut peers store).state := by
  obtain ⟨address, pod⟩ := entry
  cases found : peers.owners[address]? with
  | some owners =>
      rw [addPlan_owned found]
      exact Trail.start.share (mem_of_found found)
  | none =>
      cases handle : peers.backing.handle? address.family with
      | none =>
          rw [addPlan_unbacked found handle]
          exact .start
      | some set =>
          have out : address ∉ peers.owners := by
            rw [Std.ExtTreeMap.mem_iff_isSome_getElem?, found]
            exact Bool.false_ne_true
          rw [addPlan_first found handle]
          exact trail_of_submit store ⟨address, set, handle, .inl rfl⟩ fun _ =>
            Trail.start.enter out handle

theorem removePlan_trail (pod : PodKey) (address : Address) (peers : PeerSet) (store : Store) :
    Trail peers ((removePlan pod address peers).entries store)
      ((removePlan pod address peers).carryOut peers store).state := by
  by_cases owns : peers.Owns pod address
  · obtain ⟨owners, found, owner⟩ := owns
    by_cases last : owners.IsLast pod
    · cases handle : peers.backing.handle? address.family with
      | none =>
          rw [removePlan_unbacked found owner last handle]
          exact .start
      | some set =>
          rw [removePlan_last found owner last handle]
          exact trail_of_submit store ⟨address, set, handle, .inr rfl⟩ fun _ =>
            Trail.start.leave (mem_of_found found) handle
    · rw [removePlan_shared found owner last]
      exact Trail.start.share (mem_of_found found)
  · rw [removePlan_of_stranger owns]
    exact .start

end PeerSet

namespace OwnerChange

open PeerSet (addPlan removePlan Trail)

theorem apply_trail (change : OwnerChange) (peers : PeerSet) (store : Store) :
    ∃ made, (change.apply peers store).store.journal = made ++ store.journal ∧
      Trail peers made (change.apply peers store).state ∧
      ∀ entry ∈ made, entry.reached = !store.faults.blocks entry.call := by
  cases change with
  | add address pod =>
      simp only [apply, Outcome.map, PeerSet.addOwner_eq]
      exact ⟨_, Intent.carryOut_journal _ _ _, PeerSet.addPlan_trail _ _ _,
        Intent.entries_reached _ _⟩
  | remove address pod =>
      simp only [apply, Outcome.map, PeerSet.removeOwner_eq]
      exact ⟨_, Intent.carryOut_journal _ _ _, PeerSet.removePlan_trail _ _ _ _,
        Intent.entries_reached _ _⟩
  | removeAll pod =>
      simp only [apply, Outcome.map, PeerSet.removeAll, PeerSet.removeEach_eq]
      refine Intent.each_makes (removePlan pod)
        (fun peers made next => Trail peers made next ∧
          ∀ entry ∈ made, entry.reached = !store.faults.blocks entry.call) ?_ ?_ ?_ _ peers
      · exact fun peers => ⟨.start, by simp⟩
      · rintro peers middle next first second ⟨trail, reached⟩ ⟨trail', reached'⟩
        exact ⟨trail.trans trail', List.forall_mem_append.mpr ⟨reached', reached⟩⟩
      · intro address peers now faults
        have reached := Intent.entries_reached (removePlan pod address peers) now
        rw [faults] at reached
        exact ⟨PeerSet.removePlan_trail pod address peers now, reached⟩

end OwnerChange

end PolicyAcl
