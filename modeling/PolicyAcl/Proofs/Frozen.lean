import PolicyAcl.Proofs.Departure
import PolicyAcl.Proofs.Edges
import PolicyAcl.Proofs.Teardown

/-! A family that a peer set has no handle for. Its addresses may have owners from before,
but the store is not called for them any more: none of them gains a first owner or loses
its last one, and a pod that owns one alone cannot be removed. -/
namespace PolicyAcl

open Store (Call Entry)

namespace PeerSet

variable {peers next : PeerSet} {store after : Store} {address : Address} {pod : PodKey}
  {family : Family}

/-- The address gets no first owner and does not lose its last one. Any other change of its
owners is made without the store. -/
structure FrozenAt (address : Address) (peers : PeerSet) : Prop where
  first : ∀ pod store, address ∉ peers.owners →
    peers.addOwner address pod store = ⟨.error (.noFamilySet peers.name address), peers, store⟩
  another : ∀ pod store, address ∈ peers.owners → ∃ grown,
    peers.addOwner address pod store = ⟨.ok false, grown, store⟩ ∧
      grown.ownership = insert (address, pod) peers.ownership
  last : ∀ pod store, Ownership.Sole peers.ownership address pod →
    peers.removeOwner address pod store = ⟨.error (.noFamilySet peers.name address), peers, store⟩
  other : ∀ pod store, ¬Ownership.Sole peers.ownership address pod → ∃ shrunk,
    peers.removeOwner address pod store = ⟨.ok false, shrunk, store⟩ ∧
      shrunk.ownership = peers.ownership \ {(address, pod)}

theorem frozenAt (unbacked : peers.backing.handle? address.family = none) :
    peers.FrozenAt address where
  first pod store unowned := by
    rw [addOwner_eq, addPlan_unbacked (Std.ExtTreeMap.getElem?_eq_none unowned) unbacked]
    rfl
  another pod store owned := by
    obtain ⟨other, owner⟩ := mem_owners_iff.mp owned
    obtain ⟨changed, planned, grown⟩ := addPlan_of_owned pod owner
    rw [addOwner_eq, planned]
    exact ⟨_, rfl, grown⟩
  last pod store sole := by
    rw [removeOwner_eq, removePlan_of_sole_unbacked sole.1 sole.2 unbacked]
    rfl
  other pod store shared := by
    obtain ⟨shrunk, planned, left⟩ := removePlan_of_not_sole shared
    rw [removeOwner_eq, planned]
    exact ⟨shrunk, rfl, left⟩

theorem Trail.frozen {start : PeerSet} {made : List Entry} (trail : Trail start made next)
    (unbacked : start.backing.handle? address.family = none) :
    address ∈ next.owners ↔ address ∈ start.owners := by
  have elsewhere {peers : PeerSet} {made : List Entry} {place : Address} {set : String}
      (trail : Trail start made peers) (handle : peers.backing.handle? place.family = some set) :
      place ≠ address := by
    rintro rfl
    rw [trail.backing, unbacked] at handle
    cases handle
  induction trail with
  | start => rfl
  | @share peers _ place owners _ owned ih =>
      refine Iff.trans ?_ ih
      rw [Std.ExtTreeMap.mem_insert, Std.LawfulEqCmp.compare_eq_iff_eq, or_iff_right_iff_imp]
      rintro rfl
      exact owned
  | enter trail _ handle ih =>
      simpa [elsewhere trail handle] using ih
  | leave trail _ handle ih =>
      simpa [elsewhere trail handle] using ih
  | refused _ _ ih => exact ih

theorem Trail.spares {start : PeerSet} {made : List Entry} (trail : Trail start made next)
    (unbacked : start.backing.handle? family = none) :
    ∀ entry ∈ made, ∀ address ∈ entry.call.addresses, address.family ≠ family := by
  intro entry member address about same
  obtain ⟨place, set, handle, called⟩ := trail.aimed entry member
  obtain rfl : address = place := by
    rcases called with called | called <;> simpa [called, Call.addresses] using about
  rw [same, unbacked] at handle
  cases handle

theorem destroy_addresses (peers : PeerSet) (store : Store) :
    ∃ made, (peers.destroy store).store.journal = made ++ store.journal ∧
      ∀ entry ∈ made, entry.call.addresses = [] := by
  rw [destroy_eq]
  refine Intent.each_makes destroyPlan (fun _ made _ => ∀ entry ∈ made, entry.call.addresses = [])
    (by simp) (fun _ _ _ _ _ first second => List.forall_mem_append.mpr ⟨second, first⟩) ?_ _ peers
  intro family peers now _
  cases handle : peers.backing.handle? family with
  | none => simp [destroyPlan_released handle, Intent.entries]
  | some set => simp [destroyPlan_backed handle, Intent.entries, Call.addresses]

theorem Operation.spares (operation : Operation)
    (unbacked : peers.backing.handle? family = none) (store : Store) :
    ∃ made, (operation.apply peers store).store.journal = made ++ store.journal ∧
      ∀ entry ∈ made, ∀ address ∈ entry.call.addresses, address.family ≠ family := by
  cases operation with
  | owners change =>
      obtain ⟨made, called, trail, -⟩ := change.apply_trail peers store
      exact ⟨made, called, trail.spares unbacked⟩
  | destroy =>
      obtain ⟨made, called, addresses⟩ := peers.destroy_addresses store
      refine ⟨made, called, fun entry member => ?_⟩
      rw [addresses entry member]
      simp

/-- A family is still without a handle, and the same addresses of it have owners. -/
structure Freezes (family : Family) (start peers : PeerSet) : Prop where
  name : peers.name = start.name
  unbacked : peers.backing.handle? family = none
  owned : ∀ address, address.family = family → (address ∈ peers.owners ↔ address ∈ start.owners)

theorem Operation.freezes (operation : Operation) {start : PeerSet}
    (freezes : Freezes family start peers) (store : Store) :
    Freezes family start (operation.apply peers store).state := by
  cases operation with
  | owners change =>
      obtain ⟨made, -, trail, -⟩ := change.apply_trail peers store
      refine ⟨trail.name.trans freezes.name, ?_, ?_⟩
      · rw [Operation.apply, trail.backing]
        exact freezes.unbacked
      · intro address same
        have unbacked := freezes.unbacked
        rw [← same] at unbacked
        exact (trail.frozen unbacked).trans (freezes.owned address same)
  | destroy =>
      have handle := destroy_released store freezes.unbacked
      have rest := peers.destroy_rest store
      simp only [Operation.apply, Outcome.map]
      generalize (peers.destroy store).state = next at handle rest
      rw [rest]
      exact ⟨freezes.name, handle, freezes.owned⟩

theorem removeOwner_fails {error : PeerError}
    (failed : peers.removeOwner address pod store = ⟨.error error, next, after⟩) :
    Ownership.Sole peers.ownership address pod ∧
      ((peers.backing.handle? address.family = none ∧ error = .noFamilySet peers.name address) ∨
        ∃ set cause, peers.backing.handle? address.family = some set ∧
          error = .delete set address cause ∧
          after = store.record (.delete set [address]) (some cause)) := by
  rw [removeOwner_eq] at failed
  by_cases sole : Ownership.Sole peers.ownership address pod
  · refine ⟨sole, ?_⟩
    cases handle : peers.backing.handle? address.family with
    | none =>
        rw [removePlan_of_sole_unbacked sole.1 sole.2 handle] at failed
        cases failed
        exact .inl ⟨rfl, rfl⟩
    | some set =>
        obtain ⟨changed, planned, -⟩ := removePlan_of_sole sole.1 sole.2 handle
        rw [planned] at failed
        cases answered : store.answer (.delete set [address]) with
        | ok contents =>
            rw [Intent.carryOut_of_ok peers answered] at failed
            cases failed
        | error cause =>
            rw [Intent.carryOut_of_error peers answered] at failed
            cases failed
            exact .inr ⟨set, cause, rfl, rfl, rfl⟩
  · obtain ⟨shrunk, planned, -⟩ := removePlan_of_not_sole sole
    rw [planned] at failed
    cases failed

/-- How the removal of all addresses of a pod stops at one that it owns alone: the pod keeps
it and all above it, and the store is not called for those above it. -/
structure StopsAt (stuck : Address) (pod : PodKey) (peers : PeerSet) (store : Store)
    (outcome : Outcome PeerSet Unit) : Prop where
  sole : Ownership.Sole peers.ownership stuck pod
  first : ∀ address, Ownership.Sole peers.ownership address pod →
    peers.backing.handle? address.family = none → stuck.rank ≤ address.rank
  answered : (peers.backing.handle? stuck.family = none ∧
      outcome.answer = .error (.noFamilySet peers.name stuck)) ∨
    ∃ set cause, peers.backing.handle? stuck.family = some set ∧
      outcome.answer = .error (.delete set stuck cause) ∧
      outcome.store.journal.head?.map (fun entry => (entry.call, entry.error)) =
        some (.delete set [stuck], some cause)
  kept : outcome.state.ownership =
    {pair ∈ peers.ownership | ¬(pair.2 = pod ∧ pair.1.rank < stuck.rank)}
  calls : ∃ made, outcome.store.journal = made ++ store.journal ∧
    ∀ entry ∈ made, ∀ address ∈ entry.call.addresses, address.rank ≤ stuck.rank

/-- The addresses below the one that a removal stops at are those that are given up. -/
theorem removeAll_gives {error : PeerError}
    (failed : peers.removeAll pod store = ⟨.error error, next, after⟩) :
    ∃ stuck done between,
      (∀ address, address ∈ done ↔ peers.Owns pod address ∧ address.rank < stuck.rank) ∧
      Intent.performEach (removePlan pod) done peers store.contents =
        .ok (next, between.contents) ∧
      next.removeOwner stuck pod between = ⟨.error error, next, after⟩ := by
  obtain ⟨done, stuck, above, between, split, worked, failed, -⟩ := removeAll_stops failed
  rw [removeEach_eq] at worked
  have sorted := peers.ownedBy_sorted pod
  rw [split] at sorted
  refine ⟨stuck, done, between, fun address => ?_, Intent.each_done worked, failed⟩
  rw [sorted.mem_before_iff, ← split, mem_ownedBy]

theorem removeAll_stopsAt (sole : Ownership.Sole peers.ownership address pod)
    (unbacked : peers.backing.handle? address.family = none) (store : Store) :
    ∃ stuck, StopsAt stuck pod peers store (peers.removeAll pod store) := by
  have rest := peers.removeAll_rest pod store
  obtain ⟨made, called, -, edges⟩ := (OwnerChange.removeAll pod).apply_edges peers store
  simp only [OwnerChange.apply, Outcome.map] at called edges
  cases ended : peers.removeAll pod store with
  | mk answer next after =>
      rw [ended] at rest called edges
      cases answer with
      | ok done =>
          exact absurd unbacked
            (performEach_removes_backed (removeAll_ok ended) (mem_ownedBy.mpr sole.1) sole)
      | error error =>
          obtain ⟨stuck, done, between, below, performed, failed⟩ := removeAll_gives ended
          obtain ⟨still, stopped⟩ := removeOwner_fails failed
          have kept : next.ownership =
              {pair ∈ peers.ownership | ¬(pair.2 = pod ∧ pair.1.rank < stuck.rank)} := by
            rw [performEach_removes performed]
            ext ⟨address, other⟩
            simp only [Set.mem_sdiff, Set.mem_ofPred_eq, below, mem_ownership]
            grind
          have before (other : PodKey) :
              (stuck, other) ∈ next.ownership ↔ (stuck, other) ∈ peers.ownership := by
            simp [kept]
          have owner := (before pod).mp still.1
          refine ⟨stuck, ⟨owner, fun other owns => still.2 other ((before other).mpr owns)⟩,
            ?_, ?_, kept, made, called, ?_⟩
          · intro address sole unbacked
            by_contra lower
            have given := (below address).mpr ⟨sole.1, Nat.lt_of_not_le lower⟩
            exact performEach_removes_backed performed given sole unbacked
          · have name : next.name = peers.name := by rw [show next = _ from rest]
            have backing : next.backing = peers.backing := by rw [show next = _ from rest]
            rw [name, backing] at stopped
            rcases stopped with ⟨unbacked, rfl⟩ | ⟨set, cause, handle, rfl, rfl⟩
            · exact .inl ⟨unbacked, rfl⟩
            · exact .inr ⟨set, cause, handle, rfl, rfl⟩
          · intro entry member address about
            obtain ⟨place, set, -, -, lower, same⟩ := OwnerChange.edge_removeAll_iff.mp
              ((edges entry.call).mp (List.mem_map.mpr ⟨entry, member, rfl⟩))
            obtain rfl : address = place := by simpa [same, Call.addresses] using about
            by_contra above
            exact lower stuck owner (Nat.lt_of_not_le above) still.1

end PeerSet

/-- Whatever is done with a peer set that has no handle for a family, the addresses of that
family are frozen, and the store is not called for them. Removing a pod that owns one of
them alone stops at the first address that it owns alone without a handle for its family,
unless a delete of a lower address has failed, and leaves the pod everything above. -/
theorem family_without_handle_is_frozen (peers : PeerSet) (store : Store) (family : Family)
    (unbacked : peers.backing.handle? family = none)
    (events : List (Event PeerSet.Operation)) :
    let (reached, _) := Event.run PeerSet.use events (peers, store)
    reached.name = peers.name ∧ reached.backing.handle? family = none ∧
    (∀ address, address.family = family →
      (address ∈ reached.owners ↔ address ∈ peers.owners) ∧ reached.FrozenAt address) ∧
    (∀ (operation : PeerSet.Operation) (next : Store), ∃ made,
      (operation.apply reached next).store.journal = made ++ next.journal ∧
      ∀ entry ∈ made, ∀ address ∈ entry.call.addresses, address.family ≠ family) ∧
    ∀ address pod, address.family = family → Ownership.Sole reached.ownership address pod →
      ∀ next : Store, ∃ stuck, PeerSet.StopsAt stuck pod reached next (reached.removeAll pod next) := by
  have freezes : PeerSet.Freezes family peers (Event.run PeerSet.use events (peers, store)).1 := by
    refine Event.run_preserves PeerSet.use (fun reached _ => PeerSet.Freezes family peers reached)
      (fun operation reached store freezes => ?_) (fun _ _ _ _ freezes => freezes)
      ⟨rfl, unbacked, fun _ _ => Iff.rfl⟩
    exact operation.freezes freezes store
  generalize Event.run PeerSet.use events (peers, store) = ended at freezes
  obtain ⟨reached, now⟩ := ended
  refine ⟨freezes.name, freezes.unbacked, ?_, ?_, ?_⟩
  · rintro address rfl
    exact ⟨freezes.owned address rfl, PeerSet.frozenAt freezes.unbacked⟩
  · exact fun operation next => operation.spares freezes.unbacked next
  · rintro address pod rfl sole next
    exact PeerSet.removeAll_stopsAt sole freezes.unbacked next

/-- The IPv4 handle is given up while a pod owns an address of each family. -/
def halfReleased : PeerSet × Store :=
  Event.run PeerSet.use
    [.act (.owners (.add (.v4 ⟨10, 0, 0, 1⟩) ⟨"ns1", "pod1"⟩)),
      .act (.owners (.add mappedAddress ⟨"ns1", "pod1"⟩)), .block .destroy "ns1_v6", .act .destroy]
    (backedPeers, backedStore)

/-- Another pod joins, and gets the IPv4 address for itself. -/
def takenOver : List (Event PeerSet.Operation) :=
  [.clearFaults, .act (.owners (.add (.v4 ⟨10, 0, 0, 1⟩) ⟨"ns1", "pod2"⟩)),
    .act (.owners (.add mappedAddress ⟨"ns1", "pod2"⟩)),
    .act (.owners (.remove (.v4 ⟨10, 0, 0, 1⟩) ⟨"ns1", "pod1"⟩))]

theorem family_without_handle_is_frozen_taken_over :
    let (reached, now) := Event.run PeerSet.use takenOver halfReleased
    let removed := reached.removeAll ⟨"ns1", "pod2"⟩ now
    halfReleased.1.backing.handle? .v4 = none ∧
    reached.backing = { v6 := some "ns1_v6" } ∧
    reached.addOwner (.v4 ⟨10, 0, 0, 2⟩) ⟨"ns1", "pod1"⟩ now =
      ⟨.error (.noFamilySet "ns1" (.v4 ⟨10, 0, 0, 2⟩)), reached, now⟩ ∧
    Ownership.Sole reached.ownership (.v4 ⟨10, 0, 0, 1⟩) ⟨"ns1", "pod2"⟩ ∧
    (∃ stuck, PeerSet.StopsAt stuck ⟨"ns1", "pod2"⟩ reached now removed) ∧
    removed.answer = .error (.noFamilySet "ns1" (.v4 ⟨10, 0, 0, 1⟩)) ∧
    removed.state.ownedBy ⟨"ns1", "pod2"⟩ = [.v4 ⟨10, 0, 0, 1⟩, mappedAddress] := by
  have unbacked : halfReleased.1.backing.handle? .v4 = none := by decide +kernel
  have backing : (Event.run PeerSet.use takenOver halfReleased).1.backing =
      { v6 := some "ns1_v6" } := by decide +kernel
  have unowned : (.v4 ⟨10, 0, 0, 2⟩) ∉ (Event.run PeerSet.use takenOver halfReleased).1.owners := by
    decide +kernel
  have listed : ((Event.run PeerSet.use takenOver halfReleased).1.owners[
      (.v4 ⟨10, 0, 0, 1⟩ : Address)]?).map (·.pods.toList) = some [⟨"ns1", "pod2"⟩] := by
    decide +kernel
  obtain ⟨owners, found, pods⟩ := Option.map_eq_some_iff.mp listed
  have removed : (PeerSet.removeAll ⟨"ns1", "pod2"⟩
        (Event.run PeerSet.use takenOver halfReleased).1
        (Event.run PeerSet.use takenOver halfReleased).2).answer =
      .error (.noFamilySet "ns1" (.v4 ⟨10, 0, 0, 1⟩)) := by decide +kernel
  have kept : (PeerSet.removeAll ⟨"ns1", "pod2"⟩
        (Event.run PeerSet.use takenOver halfReleased).1
        (Event.run PeerSet.use takenOver halfReleased).2).state.ownedBy ⟨"ns1", "pod2"⟩ =
      [.v4 ⟨10, 0, 0, 1⟩, mappedAddress] := by decide +kernel
  have frozen := family_without_handle_is_frozen halfReleased.1 halfReleased.2 .v4 unbacked takenOver
  have sole : Ownership.Sole (Event.run PeerSet.use takenOver halfReleased).1.ownership
      (.v4 ⟨10, 0, 0, 1⟩) ⟨"ns1", "pod2"⟩ := by
    simp [Ownership.Sole, PeerSet.owns_iff_of_found found, ← Std.ExtTreeSet.mem_toList, pods]
  rw [Prod.mk.eta] at frozen
  generalize Event.run PeerSet.use takenOver halfReleased = ended at *
  obtain ⟨reached, now⟩ := ended
  obtain ⟨name, -, still, -, stops⟩ := frozen
  have base : reached.name = "ns1" := name.trans (by decide +kernel)
  have refused := (still (.v4 ⟨10, 0, 0, 2⟩) rfl).2.first ⟨"ns1", "pod1"⟩ now unowned
  rw [base] at refused
  exact ⟨unbacked, backing, refused, sole, stops _ _ rfl sole now, removed, kept⟩

/-- Both handles are given up while a pod owns an address of each family. -/
def bothDestroyed : List (Event PeerSet.Operation) :=
  [.act (.owners (.add (.v4 ⟨10, 0, 0, 1⟩) ⟨"ns1", "pod1"⟩)),
    .act (.owners (.add mappedAddress ⟨"ns1", "pod1"⟩)), .act .destroy]

/-- The IPv6 family has no handle, and `mappedAddress` is the only address of it, but the
removal stops below it although no delete has failed. -/
theorem removal_stops_below_frozen_family :
    let (reached, now) := Event.run PeerSet.use bothDestroyed (backedPeers, backedStore)
    let removed := reached.removeAll ⟨"ns1", "pod1"⟩ now
    reached.backing.handle? .v6 = none ∧ mappedAddress.family = .v6 ∧
    reached.owners.toList.map (fun entry => (entry.1, entry.2.pods.toList)) =
      [(.v4 ⟨10, 0, 0, 1⟩, [⟨"ns1", "pod1"⟩]), (mappedAddress, [⟨"ns1", "pod1"⟩])] ∧
    removed.store.journal = now.journal ∧
    removed.answer = .error (.noFamilySet "ns1" (.v4 ⟨10, 0, 0, 1⟩)) ∧
    removed.answer ≠ .error (.noFamilySet "ns1" mappedAddress) := by
  decide +kernel

end PolicyAcl
