import PolicyAcl.Proofs.Intent
import PolicyAcl.Proofs.Ownership

/-! The plans behind the operations on a peer set: what is to be done about one
pair of an address and a pod, about one address of a pod, and about one family. -/
namespace PolicyAcl

namespace Backing

@[simp] theorem handle?_put (backing : Backing) (set : String) (family other : Family) :
    (backing.put set family).handle? other =
      if other = family then some set else backing.handle? other := by
  cases family <;> cases other <;> rfl

@[simp] theorem handle?_forget (backing : Backing) (family other : Family) :
    (backing.forget family).handle? other =
      if other = family then none else backing.handle? other := by
  cases family <;> cases other <;> rfl

variable {backing : Backing} {family : Family} {set : String}

theorem mem_remaining : (family, set) ∈ backing.remaining ↔ backing.handle? family = some set := by
  cases family <;> simp [remaining]

theorem handle?_of_finished (finished : backing.remaining = []) (family : Family) :
    backing.handle? family = none := by
  refine Option.eq_none_iff_forall_not_mem.mpr fun set backed => ?_
  have member := mem_remaining.mpr backed
  rw [finished] at member
  cases member

theorem handle?_of_first {rest : List (Family × String)}
    (first : backing.remaining = (family, set) :: rest) : backing.handle? family = some set := by
  apply mem_remaining.mp
  rw [first]
  exact List.mem_cons_self

/-- The IPv6 set comes first only if no IPv4 set is left. -/
theorem handle?_v4_of_first {rest : List (Family × String)}
    (first : backing.remaining = (.v6, set) :: rest) : backing.handle? .v4 = none := by
  cases earlier : backing.handle? .v4 with
  | none => rfl
  | some other =>
      rw [remaining, List.filterMap_cons, earlier] at first
      cases first

/-- The backing sets have the names that the families give them. -/
def Named (base : String) (backing : Backing) : Prop :=
  ∀ family set, backing.handle? family = some set → set = family.setName base

end Backing

namespace PeerSet

/-- Record a pod as an owner of an address. -/
def addPlan : Address × PodKey → PeerSet → Intent PeerSet
  | (address, pod), peers =>
    match peers.owners[address]? with
    | some owners => .quiet { peers with owners := peers.owners.insert address (owners.add pod) }
    | none =>
      match peers.backing.handle? address.family with
      | none => .refuse (.noFamilySet peers.name address)
      | some set =>
        .submit (.add set [address])
          { peers with owners := peers.owners.insert address (.single pod) } (.add set address)

/-- Forget a pod as an owner of an address. -/
def removePlan (pod : PodKey) (address : Address) (peers : PeerSet) : Intent PeerSet :=
  match peers.owners[address]? with
  | none => .quiet peers
  | some owners =>
    if pod ∉ owners.pods then .quiet peers
    else if others : ¬owners.IsLast pod then
      .quiet { peers with owners := peers.owners.insert address (owners.remove pod others) }
    else
      match peers.backing.handle? address.family with
      | none => .refuse (.noFamilySet peers.name address)
      | some set =>
        .submit (.delete set [address]) { peers with owners := peers.owners.erase address }
          (.delete set address)

/-- Destroy the backing set of a family, if it has one. -/
def destroyPlan (family : Family) (peers : PeerSet) : Intent PeerSet :=
  match peers.backing.handle? family with
  | none => .quiet peers
  | some set =>
    .submit (.destroy set) { peers with backing := peers.backing.forget family } (.destroy set)

/-- Get a backing set for a family. -/
def ensurePlan (name : String) (family : Family) (backing : Backing) : Intent Backing :=
  .submit (.ensure (family.setName name)) (backing.put (family.setName name) family)
    (.ensure (family.setName name))

section
variable {peers next : PeerSet} {address : Address} {pod : PodKey} {owners : Owners} {set : String}
  {family : Family} {contents after : Store.Contents} {call : Store.Call}
  {complain : Store.Error → PeerError}

theorem addPlan_owned (found : peers.owners[address]? = some owners) :
    addPlan (address, pod) peers =
      .quiet { peers with owners := peers.owners.insert address (owners.add pod) } := by
  simp only [addPlan, found]

theorem addPlan_unbacked (missing : peers.owners[address]? = none)
    (unbacked : peers.backing.handle? address.family = none) :
    addPlan (address, pod) peers = .refuse (.noFamilySet peers.name address) := by
  simp only [addPlan, missing, unbacked]

theorem addPlan_first (missing : peers.owners[address]? = none)
    (backed : peers.backing.handle? address.family = some set) :
    addPlan (address, pod) peers =
      .submit (.add set [address])
        { peers with owners := peers.owners.insert address (.single pod) } (.add set address) := by
  simp only [addPlan, missing, backed]

theorem removePlan_missing (missing : peers.owners[address]? = none) :
    removePlan pod address peers = .quiet peers := by
  simp only [removePlan, missing]

theorem removePlan_stranger (found : peers.owners[address]? = some owners)
    (stranger : pod ∉ owners.pods) : removePlan pod address peers = .quiet peers := by
  simp only [removePlan, found, if_pos stranger]

theorem removePlan_shared (found : peers.owners[address]? = some owners) (owner : pod ∈ owners.pods)
    (others : ¬owners.IsLast pod) :
    removePlan pod address peers =
      .quiet { peers with owners := peers.owners.insert address (owners.remove pod others) } := by
  simp only [removePlan, found, if_neg (not_not.mpr owner), dif_pos others]

theorem removePlan_unbacked (found : peers.owners[address]? = some owners)
    (owner : pod ∈ owners.pods) (last : owners.IsLast pod)
    (unbacked : peers.backing.handle? address.family = none) :
    removePlan pod address peers = .refuse (.noFamilySet peers.name address) := by
  simp only [removePlan, found, if_neg (not_not.mpr owner), dif_neg (not_not.mpr last), unbacked]

theorem removePlan_last (found : peers.owners[address]? = some owners) (owner : pod ∈ owners.pods)
    (last : owners.IsLast pod) (backed : peers.backing.handle? address.family = some set) :
    removePlan pod address peers =
      .submit (.delete set [address]) { peers with owners := peers.owners.erase address }
        (.delete set address) := by
  simp only [removePlan, found, if_neg (not_not.mpr owner), dif_neg (not_not.mpr last), backed]

theorem addPlan_of_owned {other : PodKey} (pod : PodKey) (owner : peers.Owns other address) :
    ∃ changed, addPlan (address, pod) peers = .quiet { peers with owners := changed } ∧
      { peers with owners := changed }.ownership = insert (address, pod) peers.ownership := by
  obtain ⟨owners, found, -⟩ := owner
  exact ⟨_, addPlan_owned found, ownership_share found⟩

theorem addPlan_of_new (new : ∀ other, ¬peers.Owns other address)
    (backed : peers.backing.handle? address.family = some set) :
    ∃ changed, addPlan (address, pod) peers =
        .submit (.add set [address]) { peers with owners := changed } (.add set address) ∧
      { peers with owners := changed }.ownership = insert (address, pod) peers.ownership := by
  have missing : peers.owners[address]? = none := missing_of_not_owned new
  exact ⟨_, addPlan_first missing backed, ownership_first missing⟩

theorem removePlan_of_stranger (stranger : ¬peers.Owns pod address) :
    removePlan pod address peers = .quiet peers := by
  cases found : peers.owners[address]? with
  | none => exact removePlan_missing found
  | some owners =>
      have unlisted : pod ∉ owners.pods := fun owner => stranger ((owns_iff_of_found found).mpr owner)
      exact removePlan_stranger found unlisted

theorem removePlan_of_shared {other : PodKey} (owner : peers.Owns pod address)
    (different : other ≠ pod) (sharer : peers.Owns other address) :
    ∃ changed, removePlan pod address peers = .quiet { peers with owners := changed } ∧
      { peers with owners := changed }.ownership = peers.ownership \ {(address, pod)} := by
  obtain ⟨owners, found, member⟩ := owner
  have others : ¬owners.IsLast pod := by
    intro last
    exact different (Owners.isLast_iff.mp last other ((owns_iff_of_found found).mp sharer))
  exact ⟨_, removePlan_shared found member others, ownership_unshare found others⟩

theorem removePlan_of_sole (owner : peers.Owns pod address)
    (sole : ∀ other, peers.Owns other address → other = pod)
    (backed : peers.backing.handle? address.family = some set) :
    ∃ changed, removePlan pod address peers =
        .submit (.delete set [address]) { peers with owners := changed } (.delete set address) ∧
      { peers with owners := changed }.ownership = peers.ownership \ {(address, pod)} := by
  obtain ⟨owners, found, member⟩ := owner
  have last : owners.IsLast pod := Owners.isLast_iff.mpr fun other owns =>
    sole other ((owns_iff_of_found found).mpr owns)
  exact ⟨_, removePlan_last found member last backed, ownership_last found last⟩

theorem removePlan_of_sole_unbacked (owner : peers.Owns pod address)
    (sole : ∀ other, peers.Owns other address → other = pod)
    (unbacked : peers.backing.handle? address.family = none) :
    removePlan pod address peers = .refuse (.noFamilySet peers.name address) := by
  obtain ⟨owners, found, member⟩ := owner
  have last : owners.IsLast pod := Owners.isLast_iff.mpr fun other owns =>
    sole other ((owns_iff_of_found found).mpr owns)
  exact removePlan_unbacked found member last unbacked

/-- What recording an owner comes to: the address has owners already, or it enters
the store with its first one. -/
theorem addPlan_perform
    (performed : (addPlan (address, pod) peers).perform contents = .ok (next, after)) :
    (∃ owners, peers.owners[address]? = some owners ∧ after = contents ∧
      next = { peers with owners := peers.owners.insert address (owners.add pod) }) ∨
    ∃ set, peers.owners[address]? = none ∧ peers.backing.handle? address.family = some set ∧
      contents.perform (.add set [address]) = .ok after ∧
      next = { peers with owners := peers.owners.insert address (.single pod) } := by
  cases found : peers.owners[address]? with
  | some owners =>
      rw [addPlan_owned found] at performed
      cases performed
      exact .inl ⟨owners, rfl, rfl, rfl⟩
  | none =>
      cases handle : peers.backing.handle? address.family with
      | none =>
          rw [addPlan_unbacked found handle] at performed
          cases performed
      | some set =>
          rw [addPlan_first found handle, Intent.perform_submit] at performed
          exact .inr ⟨set, rfl, rfl, performed.2, performed.1.symm⟩

/-- What forgetting an owner comes to: the pod does not own the address, or it shares
it, or the address leaves the store with its last owner. -/
theorem removePlan_perform
    (performed : (removePlan pod address peers).perform contents = .ok (next, after)) :
    (¬peers.Owns pod address ∧ after = contents ∧ next = peers) ∨
    (∃ owners others, peers.owners[address]? = some owners ∧ after = contents ∧
      next = { peers with owners := peers.owners.insert address (owners.remove pod others) }) ∨
    ∃ owners set, peers.owners[address]? = some owners ∧ owners.IsLast pod ∧
      peers.backing.handle? address.family = some set ∧
      contents.perform (.delete set [address]) = .ok after ∧
      next = { peers with owners := peers.owners.erase address } := by
  by_cases owns : peers.Owns pod address
  · obtain ⟨owners, found, owner⟩ := owns
    by_cases last : owners.IsLast pod
    · cases handle : peers.backing.handle? address.family with
      | none =>
          rw [removePlan_unbacked found owner last handle] at performed
          cases performed
      | some set =>
          rw [removePlan_last found owner last handle, Intent.perform_submit] at performed
          exact .inr (.inr ⟨owners, set, found, last, rfl, performed.2, performed.1.symm⟩)
    · rw [removePlan_shared found owner last] at performed
      cases performed
      exact .inr (.inl ⟨owners, last, found, rfl, rfl⟩)
  · rw [removePlan_of_stranger owns] at performed
    cases performed
    exact .inl ⟨owns, rfl, rfl⟩

theorem addPlan_backing
    (performed : (addPlan (address, pod) peers).perform contents = .ok (next, after)) :
    next.backing = peers.backing := by
  rcases addPlan_perform performed with ⟨-, -, -, rfl⟩ | ⟨-, -, -, -, rfl⟩ <;> rfl

theorem removePlan_backing
    (performed : (removePlan pod address peers).perform contents = .ok (next, after)) :
    next.backing = peers.backing := by
  rcases removePlan_perform performed with
    ⟨-, -, rfl⟩ | ⟨-, -, -, -, rfl⟩ | ⟨-, -, -, -, -, -, rfl⟩ <;> rfl

/-- Adding and removing changes nothing but the owners. -/
theorem addPlan_rest
    (performed : (addPlan (address, pod) peers).perform contents = .ok (next, after)) :
    next = { peers with owners := next.owners } := by
  rcases addPlan_perform performed with ⟨-, -, -, rfl⟩ | ⟨-, -, -, -, rfl⟩ <;> rfl

theorem removePlan_rest
    (performed : (removePlan pod address peers).perform contents = .ok (next, after)) :
    next = { peers with owners := next.owners } := by
  rcases removePlan_perform performed with
    ⟨-, -, rfl⟩ | ⟨-, -, -, -, rfl⟩ | ⟨-, -, -, -, -, -, rfl⟩ <;> rfl

theorem addPlan_ownership
    (performed : (addPlan (address, pod) peers).perform contents = .ok (next, after)) :
    next.ownership = insert (address, pod) peers.ownership := by
  rcases addPlan_perform performed with ⟨owners, found, -, rfl⟩ | ⟨set, missing, -, -, rfl⟩
  · exact ownership_share found
  · exact ownership_first missing

theorem removePlan_ownership
    (performed : (removePlan pod address peers).perform contents = .ok (next, after)) :
    next.ownership = peers.ownership \ {(address, pod)} := by
  rcases removePlan_perform performed with
    ⟨stranger, -, rfl⟩ | ⟨owners, others, found, -, rfl⟩ | ⟨owners, set, found, last, -, -, rfl⟩
  · have unlisted : (address, pod) ∉ next.ownership := stranger
    exact (Set.sdiff_singleton_eq_self unlisted).symm
  · exact ownership_unshare found others
  · exact ownership_last found last

theorem addPlan_submit
    (planned : addPlan (address, pod) peers = .submit call next complain) :
    ∃ set, peers.owners[address]? = none ∧ peers.backing.handle? address.family = some set ∧
      call = .add set [address] ∧ complain = .add set address ∧
      next = { peers with owners := peers.owners.insert address (.single pod) } := by
  cases found : peers.owners[address]? with
  | some owners =>
      rw [addPlan_owned found] at planned
      cases planned
  | none =>
      cases handle : peers.backing.handle? address.family with
      | none =>
          rw [addPlan_unbacked found handle] at planned
          cases planned
      | some set =>
          rw [addPlan_first found handle] at planned
          cases planned
          exact ⟨set, rfl, rfl, rfl, rfl, rfl⟩

theorem removePlan_submit (planned : removePlan pod address peers = .submit call next complain) :
    ∃ owners set, peers.owners[address]? = some owners ∧ owners.IsLast pod ∧
      peers.backing.handle? address.family = some set ∧ call = .delete set [address] ∧
      complain = .delete set address ∧
      next = { peers with owners := peers.owners.erase address } := by
  by_cases owns : peers.Owns pod address
  · obtain ⟨owners, found, owner⟩ := owns
    by_cases last : owners.IsLast pod
    · cases handle : peers.backing.handle? address.family with
      | none =>
          rw [removePlan_unbacked found owner last handle] at planned
          cases planned
      | some set =>
          rw [removePlan_last found owner last handle] at planned
          cases planned
          exact ⟨owners, set, found, last, rfl, rfl, rfl, rfl⟩
    · rw [removePlan_shared found owner last] at planned
      cases planned
  · rw [removePlan_of_stranger owns] at planned
    cases planned

theorem addPlan_of_owner (owner : peers.Owns pod address) :
    addPlan (address, pod) peers = .quiet peers := by
  obtain ⟨changed, plan, grown⟩ := addPlan_of_owned pod owner
  rw [Set.insert_eq_of_mem (mem_ownership.mpr owner)] at grown
  have same : changed = peers.owners := owners_eq_of_ownership grown
  rw [plan, same]

theorem performEach_adds {entries : List (Address × PodKey)}
    (performed : Intent.performEach addPlan entries peers contents = .ok (next, after)) :
    next.ownership = peers.ownership ∪ {entry | entry ∈ entries} := by
  induction entries generalizing peers contents with
  | nil =>
      cases performed
      simp
  | cons entry entries ih =>
      rw [Intent.performEach] at performed
      split at performed
      next middle between first =>
        obtain ⟨address, pod⟩ := entry
        rw [ih performed, addPlan_ownership first]
        ext other
        simp only [Set.mem_union, Set.mem_insert_iff, Set.mem_ofPred_eq, List.mem_cons]
        rw [or_assoc, or_left_comm]
      next => cases performed

theorem performEach_removes {addresses : List Address}
    (performed : Intent.performEach (removePlan pod) addresses peers contents = .ok (next, after)) :
    next.ownership = peers.ownership \ {pair | pair.1 ∈ addresses ∧ pair.2 = pod} := by
  induction addresses generalizing peers contents with
  | nil =>
      cases performed
      simp
  | cons address addresses ih =>
      rw [Intent.performEach] at performed
      split at performed
      next middle between first =>
        rw [ih performed, removePlan_ownership first, sdiff_sdiff]
        congr 1
        ext ⟨place, other⟩
        simp only [Set.sup_eq_union, Set.mem_union, Set.mem_singleton_iff, Prod.mk.injEq,
          Set.mem_ofPred_eq, List.mem_cons]
        rw [← or_and_right]
      next => cases performed

theorem destroyPlan_released (released : peers.backing.handle? family = none) :
    destroyPlan family peers = .quiet peers := by
  simp only [destroyPlan, released]

theorem destroyPlan_backed (backed : peers.backing.handle? family = some set) :
    destroyPlan family peers =
      .submit (.destroy set) { peers with backing := peers.backing.forget family }
        (.destroy set) := by
  simp only [destroyPlan, backed]

theorem destroyPlan_submit (planned : destroyPlan family peers = .submit call next complain) :
    ∃ set, peers.backing.handle? family = some set ∧ call = .destroy set ∧
      complain = .destroy set ∧ next = { peers with backing := peers.backing.forget family } := by
  cases handle : peers.backing.handle? family with
  | none =>
      rw [destroyPlan_released handle] at planned
      cases planned
  | some set =>
      rw [destroyPlan_backed handle] at planned
      cases planned
      exact ⟨set, rfl, rfl, rfl, rfl⟩

/-- Destroying changes nothing but which backing sets there are. -/
theorem destroyPlan_rest
    (performed : (destroyPlan family peers).perform contents = .ok (next, after)) :
    next = { peers with backing := next.backing } := by
  cases handle : peers.backing.handle? family with
  | none =>
      rw [destroyPlan_released handle] at performed
      cases performed
      rfl
  | some set =>
      rw [destroyPlan_backed handle, Intent.perform_submit] at performed
      rw [← performed.1]

end

theorem addOwner_eq (address : Address) (pod : PodKey) (peers : PeerSet) (store : Store) :
    peers.addOwner address pod store = (addPlan (address, pod) peers).carryOut peers store := by
  unfold addOwner
  cases found : peers.owners[address]? with
  | some owners => rw [addPlan_owned found]; rfl
  | none =>
      cases handle : peers.backing.handle? address.family with
      | none => rw [addPlan_unbacked found handle]; rfl
      | some set => rw [addPlan_first found handle]; rfl

theorem removeOwner_eq (address : Address) (pod : PodKey) (peers : PeerSet) (store : Store) :
    peers.removeOwner address pod store = (removePlan pod address peers).carryOut peers store := by
  unfold removeOwner
  cases found : peers.owners[address]? with
  | none => rw [removePlan_missing found]; rfl
  | some owners =>
      by_cases owner : pod ∈ owners.pods
      · by_cases last : owners.IsLast pod
        · cases handle : peers.backing.handle? address.family with
          | none =>
              rw [removePlan_unbacked found owner last handle]
              simp only [if_neg (not_not.mpr owner), dif_neg (not_not.mpr last), Intent.carryOut]
          | some set =>
              rw [removePlan_last found owner last handle]
              simp only [if_neg (not_not.mpr owner), dif_neg (not_not.mpr last)]
              rfl
        · rw [removePlan_shared found owner last]
          simp only [if_neg (not_not.mpr owner), dif_pos last, Intent.carryOut]
      · rw [removePlan_stranger found owner]
        simp only [if_pos owner, Intent.carryOut]

theorem removeEach_eq (pod : PodKey) (addresses : List Address) (peers : PeerSet) (store : Store) :
    removeEach pod addresses peers store = Intent.each (removePlan pod) addresses peers store := by
  induction addresses generalizing peers store with
  | nil => rfl
  | cons address addresses ih =>
      simp only [removeEach, Intent.each, removeOwner_eq, ih]
      cases (removePlan pod address peers).carryOut peers store with
      | mk answer next after => cases answer <;> rfl

section
variable {peers : PeerSet} {store after : Store} {family : Family} {set : String}
  {rest : List (Family × String)} {cause : Store.Error}

/-- There is nothing left to be done. -/
theorem destroy_finished (finished : peers.backing.remaining = []) (store : Store) :
    peers.destroy store = ⟨.ok (), peers, store⟩ := by
  unfold destroy
  split
  next => rfl
  next left => cases finished.symm.trans left

/-- One turn of destroying, while there is a set left. -/
theorem destroy_of_first (first : peers.backing.remaining = (family, set) :: rest) (store : Store) :
    peers.destroy store =
      match store.submit (.destroy set) with
      | (.ok (), after) => destroy { peers with backing := peers.backing.forget family } after
      | (.error cause, after) => ⟨.error (.destroy set cause), peers, after⟩ := by
  rw [destroy]
  split
  next finished => cases finished.symm.trans first
  next left =>
    cases left.symm.trans first
    rfl

theorem destroy_of_accepted (first : peers.backing.remaining = (family, set) :: rest)
    (accepted : store.submit (.destroy set) = (.ok (), after)) :
    peers.destroy store = destroy { peers with backing := peers.backing.forget family } after := by
  rw [destroy_of_first first, accepted]

theorem destroy_of_refused (first : peers.backing.remaining = (family, set) :: rest)
    (refused : store.submit (.destroy set) = (.error cause, after)) :
    peers.destroy store = ⟨.error (.destroy set cause), peers, after⟩ := by
  rw [destroy_of_first first, refused]

theorem each_destroyPlan_released (families : List Family) (store : Store)
    (released : peers.backing.handle? family = none) :
    Intent.each destroyPlan (family :: families) peers store =
      Intent.each destroyPlan families peers store := by
  simp only [Intent.each, destroyPlan_released released, Intent.carryOut]

theorem each_destroyPlan_accepted (families : List Family)
    (backed : peers.backing.handle? family = some set)
    (accepted : store.submit (.destroy set) = (.ok (), after)) :
    Intent.each destroyPlan (family :: families) peers store =
      Intent.each destroyPlan families { peers with backing := peers.backing.forget family }
        after := by
  simp only [Intent.each, destroyPlan_backed backed, Intent.carryOut, accepted]

theorem each_destroyPlan_refused (families : List Family)
    (backed : peers.backing.handle? family = some set)
    (refused : store.submit (.destroy set) = (.error cause, after)) :
    Intent.each destroyPlan (family :: families) peers store =
      ⟨.error (.destroy set cause), peers, after⟩ := by
  simp only [Intent.each, destroyPlan_backed backed, Intent.carryOut, refused]

end

/-- To take always the first set that is left is to go through the families in order. -/
theorem destroy_eq (peers : PeerSet) (store : Store) :
    peers.destroy store = Intent.each destroyPlan [.v4, .v6] peers store := by
  induction peers, store using destroy.induct with
  | case1 peers store finished =>
      have released := Backing.handle?_of_finished finished
      rw [destroy_finished finished, each_destroyPlan_released _ _ (released .v4),
        each_destroyPlan_released _ _ (released .v6)]
      rfl
  | case2 peers store family set rest first after accepted _ ih =>
      have backed := Backing.handle?_of_first first
      rw [destroy_of_accepted first accepted, ih]
      cases family with
      | v4 =>
          rw [each_destroyPlan_accepted _ backed accepted, each_destroyPlan_released _ _ (by simp)]
      | v6 =>
          have earlier := Backing.handle?_v4_of_first first
          rw [each_destroyPlan_released _ store earlier, each_destroyPlan_accepted _ backed accepted,
            each_destroyPlan_released _ after (by simp [earlier]),
            each_destroyPlan_released _ after (by simp)]
  | case3 peers store family set rest first cause after refused =>
      have backed := Backing.handle?_of_first first
      rw [destroy_of_refused first refused]
      cases family with
      | v4 => rw [each_destroyPlan_refused _ backed refused]
      | v6 =>
          rw [each_destroyPlan_released _ store (Backing.handle?_v4_of_first first),
            each_destroyPlan_refused _ backed refused]

theorem removeAll_rest (pod : PodKey) (peers : PeerSet) (store : Store) :
    (peers.removeAll pod store).state =
      { peers with owners := (peers.removeAll pod store).state.owners } := by
  rw [removeAll, removeEach_eq]
  refine Intent.each_preserves (removePlan pod)
    (fun next _ => next = { peers with owners := next.owners })
    (fun address _ state contents next after kept performed => ?_) rfl
  have step := removePlan_rest performed
  rw [kept] at step
  exact step

theorem destroy_rest (peers : PeerSet) (store : Store) :
    (peers.destroy store).state = { peers with backing := (peers.destroy store).state.backing } := by
  rw [destroy_eq]
  refine Intent.each_preserves destroyPlan (fun next _ => next = { peers with backing := next.backing })
    (fun family _ state contents next after kept performed => ?_) rfl
  have step := destroyPlan_rest performed
  rw [kept] at step
  exact step

theorem ensureEach_eq (name : String) (families : List Family) (backing : Backing) (store : Store) :
    ensureEach name families backing store =
      Intent.each (ensurePlan name) families backing store := by
  induction families generalizing backing store with
  | nil => rfl
  | cons family families ih =>
      unfold ensureEach Intent.each ensurePlan
      cases answered : store.answer (.ensure (family.setName name)) with
      | ok contents =>
          rw [Intent.carryOut_of_ok backing answered]
          simp only [Store.submit_of_ok answered, ih]
          rfl
      | error cause =>
          rw [Intent.carryOut_of_error backing answered]
          simp only [Store.submit_of_error answered]

theorem ensure_ok {name : String} {families : Families} {store after : Store} {peers : PeerSet}
    (ensured : PeerSet.ensure name families store = (.ok peers, after)) :
    ∃ backing, Intent.each (ensurePlan name) families.enabled {} store = ⟨.ok (), backing, after⟩ ∧
      peers = { name, backing } := by
  rw [PeerSet.ensure, ensureEach_eq] at ensured
  split at ensured
  next backing last worked =>
    cases ensured
    exact ⟨backing, worked, rfl⟩
  next => cases ensured

theorem ensure_error {name : String} {families : Families} {store after : Store}
    {error : PeerError} (failed : PeerSet.ensure name families store = (.error error, after)) :
    ∃ backing, Intent.each (ensurePlan name) families.enabled {} store =
      ⟨.error error, backing, after⟩ := by
  rw [PeerSet.ensure, ensureEach_eq] at failed
  split at failed
  next => cases failed
  next reason backing last worked =>
    cases failed
    exact ⟨backing, worked⟩

end PeerSet

namespace Rule

open PeerSet (addPlan)

/-- The pairs that pods contribute to a peer set, in the order in which they are
added. -/
def contributions (families : Families) (pods : List Pod) : List (Address × PodKey) :=
  pods.flatMap fun pod =>
    (pod.addresses.filter fun address => families.isEnabled address.family).map (·, pod.key)

theorem mem_contributions {families : Families} {entry : Address × PodKey} :
    entry ∈ contributions families pods ↔
      ∃ pod ∈ pods, pod.key = entry.2 ∧ entry.1 ∈ pod.addresses ∧
        families.isEnabled entry.1.family = true := by
  obtain ⟨address, key⟩ := entry
  simp only [contributions, List.mem_flatMap, List.mem_map, List.mem_filter, Prod.mk.injEq]
  constructor
  · rintro ⟨pod, listed, _, ⟨member, enabled⟩, rfl, rfl⟩
    exact ⟨pod, listed, rfl, member, enabled⟩
  · rintro ⟨pod, listed, rfl, member, enabled⟩
    exact ⟨pod, listed, address, ⟨member, enabled⟩, rfl, rfl⟩

theorem addAddresses_eq (families : Families) (pod : PodKey) (addresses : List Address)
    (peers : PeerSet) (store : Store) :
    addAddresses families pod addresses peers store =
      Intent.each addPlan
        ((addresses.filter fun address => families.isEnabled address.family).map (·, pod))
        peers store := by
  induction addresses generalizing peers store with
  | nil => rfl
  | cons address addresses ih =>
      rw [addAddresses, List.filter_cons]
      by_cases enabled : families.isEnabled address.family = true
      · rw [if_pos enabled, if_pos enabled, List.map_cons, Intent.each, PeerSet.addOwner_eq]
        cases (addPlan (address, pod) peers).carryOut peers store with
        | mk answer next after =>
            cases answer with
            | ok added => exact ih next after
            | error error => rfl
      · rw [if_neg enabled, if_neg enabled]
        exact ih peers store

theorem addEach_eq (families : Families) (pods : List Pod) (peers : PeerSet) (store : Store) :
    addEach families pods peers store =
      Intent.each addPlan (contributions families pods) peers store := by
  induction pods generalizing peers store with
  | nil => rfl
  | cons pod pods ih =>
      rw [addEach, contributions, List.flatMap_cons, Intent.each_append, addAddresses_eq]
      generalize Intent.each addPlan (List.map (·, pod.key) _) peers store = outcome
      obtain ⟨answer, next, after⟩ := outcome
      cases answer with
      | ok done => exact ih next after
      | error error => rfl

theorem addEach_rest (families : Families) (pods : List Pod) (peers : PeerSet) (store : Store) :
    (addEach families pods peers store).state =
      { peers with owners := (addEach families pods peers store).state.owners } := by
  rw [addEach_eq]
  refine Intent.each_preserves addPlan (fun next _ => next = { peers with owners := next.owners })
    (fun entry _ state contents next after kept performed => ?_) rfl
  have step := PeerSet.addPlan_rest performed
  rw [kept] at step
  exact step

theorem addEach_backing (families : Families) (pods : List Pod) (peers : PeerSet) (store : Store) :
    (addEach families pods peers store).state.backing = peers.backing := by
  rw [addEach_rest]

theorem removeAll_backing (pod : PodKey) (peers : PeerSet) (store : Store) :
    (peers.removeAll pod store).state.backing = peers.backing := by
  rw [PeerSet.removeAll_rest]

variable {rule next : Rule} {store after : Store} {answer : Except PeerError Unit}

theorem onPeers_cases {work : PeerSet → Store → Outcome PeerSet Unit}
    (ended : rule.onPeers work store = ⟨answer, next, after⟩) :
    (rule.peers = none ∧ answer = .error (.noPeerSet rule.id.setName) ∧ next = rule ∧
      after = store) ∨
    ∃ peers reached, rule.peers = some peers ∧ work peers store = ⟨answer, reached, after⟩ ∧
      next = { rule with peers := some reached } := by
  unfold onPeers at ended
  split at ended
  next none =>
    cases ended
    exact .inl ⟨none, rfl, rfl, rfl⟩
  next peers some =>
    cases worked : work peers store with
    | mk answer reached after =>
        rw [worked] at ended
        cases ended
        exact .inr ⟨peers, reached, some, worked, rfl⟩

/-- Pods that are added own their addresses of enabled families, beside those that were owned. -/
theorem addPods_owns {pods : List Pod} (added : rule.addPods pods store = ⟨.ok (), next, after⟩) :
    ∃ peers reached, rule.peers = some peers ∧ next.peers = some reached ∧
      ∀ key address, reached.Owns key address ↔ peers.Owns key address ∨
        ∃ pod ∈ pods, pod.key = key ∧ address ∈ pod.addresses ∧
          rule.families.isEnabled address.family = true := by
  rcases onPeers_cases added with ⟨-, failed, -⟩ | ⟨peers, reached, some, worked, rfl⟩
  · cases failed
  · refine ⟨peers, reached, some, rfl, fun key address => ?_⟩
    rw [addEach_eq] at worked
    rw [← PeerSet.mem_ownership, PeerSet.performEach_adds (Intent.each_done worked), Set.mem_union,
      PeerSet.mem_ownership]
    exact or_congr_right mem_contributions

theorem ensurePeers_cases (ended : rule.ensurePeers store = ⟨answer, next, after⟩) :
    (rule.peers ≠ none ∧ answer = .ok () ∧ next = rule ∧ after = store) ∨
    (∃ peers, rule.peers = none ∧ answer = .ok () ∧
      PeerSet.ensure rule.id.setName rule.families store = (.ok peers, after) ∧
      next = { rule with peers := some peers }) ∨
    ∃ error, rule.peers = none ∧ answer = .error error ∧
      PeerSet.ensure rule.id.setName rule.families store = (.error error, after) ∧
      next = rule := by
  unfold ensurePeers at ended
  split at ended
  next peers some =>
    cases ended
    exact .inl ⟨by simp [some], rfl, rfl, rfl⟩
  next none =>
    split at ended
    next peers last ensured =>
      cases ended
      exact .inr (.inl ⟨peers, none, rfl, ensured, rfl⟩)
    next error last ensured =>
      cases ended
      exact .inr (.inr ⟨error, none, rfl, ensured, rfl⟩)

theorem destroy_cases (ended : rule.destroy store = ⟨answer, next, after⟩) :
    (rule.peers = none ∧ answer = .ok () ∧ next = rule ∧ after = store) ∨
    (∃ peers reached, rule.peers = some peers ∧ answer = .ok () ∧
      peers.destroy store = ⟨.ok (), reached, after⟩ ∧ next = { rule with peers := none }) ∨
    ∃ error peers reached, rule.peers = some peers ∧ answer = .error error ∧
      peers.destroy store = ⟨.error error, reached, after⟩ ∧
      next = { rule with peers := some reached } := by
  unfold destroy at ended
  split at ended
  next none =>
    cases ended
    exact .inl ⟨none, rfl, rfl, rfl⟩
  next peers some =>
    split at ended
    next reached last worked =>
      cases ended
      exact .inr (.inl ⟨peers, reached, some, rfl, worked, rfl⟩)
    next error reached last worked =>
      cases ended
      exact .inr (.inr ⟨error, peers, reached, some, rfl, worked, rfl⟩)

theorem destroyed_state (ended : rule.destroy store = ⟨.ok (), next, after⟩) :
    next = { rule with peers := none } := by
  rcases destroy_cases ended with
    ⟨none, -, rfl, -⟩ | ⟨peers, reached, -, -, -, rfl⟩ | ⟨error, peers, reached, -, failed, -⟩
  · rw [← none]
  · rfl
  · cases failed

end Rule

end PolicyAcl
