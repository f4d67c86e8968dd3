import Mathlib.Data.List.Sort
import Mathlib.Data.Set.Insert
import PolicyAcl.PeerSet.Basic
import PolicyAcl.Store

/-! A peer set read as a relation between addresses and pods, and as one set of
addresses for each family. The nested map holds no more than the relation, since
it has no address without an owner. -/
namespace PolicyAcl

/-- Addresses in order, without repeats. -/
def Address.Sorted (addresses : List Address) : Prop :=
  addresses.Pairwise fun lower upper => lower.rank < upper.rank

theorem Address.Sorted.eq_of_mem_iff {addresses others : List Address} (sorted : Sorted addresses)
    (sorted' : Sorted others) (same : ∀ address, address ∈ addresses ↔ address ∈ others) :
    addresses = others := by
  have irrefl : Std.Irrefl fun lower upper : Address => lower.rank < upper.rank :=
    ⟨fun _ => Nat.lt_irrefl _⟩
  exact List.Pairwise.eq_of_mem_iff sorted sorted' same

theorem Address.Sorted.mem_before_iff {before after : List Address} {address other : Address}
    (sorted : Sorted (before ++ address :: after)) :
    other ∈ before ↔ other ∈ before ++ address :: after ∧ other.rank < address.rank := by
  obtain ⟨-, later, apart⟩ := List.pairwise_append.mp sorted
  constructor
  · intro member
    exact ⟨List.mem_append_left _ member, apart other member address List.mem_cons_self⟩
  · rintro ⟨member, lower⟩
    rcases List.mem_append.mp member with early | late
    · exact early
    · rcases List.mem_cons.mp late with rfl | late
      · exact absurd lower (Nat.lt_irrefl _)
      · exact absurd lower (Nat.lt_asymm (List.rel_of_pairwise_cons later late))

namespace Owners

theorem eq_of_mem_iff {owners other : Owners} (h : ∀ pod, pod ∈ owners.pods ↔ pod ∈ other.pods) :
    owners = other := by
  obtain ⟨pods, inhabited⟩ := owners
  obtain ⟨pods', inhabited'⟩ := other
  have same : pods = pods' := Std.ExtTreeSet.ext_mem h
  subst same
  rfl

theorem exists_mem (owners : Owners) : ∃ pod, pod ∈ owners.pods := by
  by_contra none
  have empty : owners.pods = ∅ := Std.ExtTreeSet.ext_mem fun {pod} =>
    ⟨fun member => absurd ⟨pod, member⟩ none, fun member => by simp at member⟩
  have inhabited := owners.inhabited
  simp [empty] at inhabited

@[simp] theorem mem_single {pod other : PodKey} : other ∈ (single pod).pods ↔ other = pod := by
  simpa [single] using eq_comm

@[simp] theorem mem_add {owners : Owners} {pod other : PodKey} :
    other ∈ (owners.add pod).pods ↔ other = pod ∨ other ∈ owners.pods := by
  simp [add, eq_comm (a := pod)]

@[simp] theorem mem_remove {owners : Owners} {pod other : PodKey} {others : ¬owners.IsLast pod} :
    other ∈ (owners.remove pod others).pods ↔ other ≠ pod ∧ other ∈ owners.pods := by
  simp [remove, eq_comm (a := pod)]

theorem isLast_iff {owners : Owners} {pod : PodKey} :
    owners.IsLast pod ↔ ∀ other ∈ owners.pods, other = pod := by
  simp only [IsLast, Std.ExtTreeSet.isEmpty_iff]
  constructor
  · intro empty other member
    by_contra different
    have left : other ∈ owners.pods.erase pod := by simp [member, Ne.symm different]
    simp [empty] at left
  · intro only
    refine Std.ExtTreeSet.ext_mem fun {other} => ?_
    simp only [Std.ExtTreeSet.mem_erase, Std.ExtTreeSet.not_mem_empty, iff_false, not_and]
    intro different member
    exact different (by simp [only other member])

end Owners

namespace PeerSet

variable {peers : PeerSet} {address : Address} {pod : PodKey} {owners : Owners}

theorem owns_iff_of_found (found : peers.owners[address]? = some owners) :
    peers.Owns pod address ↔ pod ∈ owners.pods := by
  simp [Owns, found]

theorem not_owns_of_missing (missing : peers.owners[address]? = none) : ¬peers.Owns pod address := by
  simp [Owns, missing]

theorem mem_owners_iff : address ∈ peers.owners ↔ ∃ pod, peers.Owns pod address := by
  rw [Std.ExtTreeMap.mem_iff_isSome_getElem?]
  cases found : peers.owners[address]? with
  | none => simp [Owns, found]
  | some owners => simp [Owns, found, owners.exists_mem]

theorem missing_of_not_owned (new : ∀ other, ¬peers.Owns other address) :
    peers.owners[address]? = none := by
  refine Std.ExtTreeMap.getElem?_eq_none fun member => ?_
  obtain ⟨other, owns⟩ := mem_owners_iff.mp member
  exact new other owns

/-- The pairs of an address and a pod that contributes it. -/
def ownership (peers : PeerSet) : Set (Address × PodKey) := {pair | peers.Owns pair.2 pair.1}

@[simp] theorem mem_ownership : (address, pod) ∈ peers.ownership ↔ peers.Owns pod address := Iff.rfl

theorem owns_insert {other : PodKey} {place : Address} :
    { peers with owners := peers.owners.insert address owners }.Owns other place ↔
      if place = address then other ∈ owners.pods else peers.Owns other place := by
  by_cases same : place = address
  · subst same
    simp [Owns]
  · simp [Owns, Std.ExtTreeMap.getElem?_insert, Ne.symm same, same]

theorem owns_erase {other : PodKey} {place : Address} :
    { peers with owners := peers.owners.erase address }.Owns other place ↔
      place ≠ address ∧ peers.Owns other place := by
  by_cases same : place = address
  · subst same
    simp [Owns]
  · simp [Owns, Std.ExtTreeMap.getElem?_erase, Ne.symm same, same]

theorem ownership_share (found : peers.owners[address]? = some owners) :
    { peers with owners := peers.owners.insert address (owners.add pod) }.ownership =
      insert (address, pod) peers.ownership := by
  ext ⟨place, other⟩
  simp only [mem_ownership, owns_insert, Owners.mem_add, Set.mem_insert_iff, Prod.mk.injEq]
  by_cases same : place = address
  · subst same
    simp [owns_iff_of_found found]
  · simp [same]

theorem ownership_first (missing : peers.owners[address]? = none) :
    { peers with owners := peers.owners.insert address (.single pod) }.ownership =
      insert (address, pod) peers.ownership := by
  ext ⟨place, other⟩
  simp only [mem_ownership, owns_insert, Owners.mem_single, Set.mem_insert_iff, Prod.mk.injEq]
  by_cases same : place = address
  · subst same
    simp [not_owns_of_missing missing]
  · simp [same]

theorem ownership_unshare (found : peers.owners[address]? = some owners)
    (others : ¬owners.IsLast pod) :
    { peers with owners := peers.owners.insert address (owners.remove pod others) }.ownership =
      peers.ownership \ {(address, pod)} := by
  ext ⟨place, other⟩
  simp only [mem_ownership, owns_insert, Owners.mem_remove, Set.mem_sdiff, Set.mem_singleton_iff,
    Prod.mk.injEq]
  by_cases same : place = address
  · subst same
    simp [owns_iff_of_found found, and_comm]
  · simp [same]

theorem ownership_last (found : peers.owners[address]? = some owners) (last : owners.IsLast pod) :
    { peers with owners := peers.owners.erase address }.ownership =
      peers.ownership \ {(address, pod)} := by
  ext ⟨place, other⟩
  simp only [mem_ownership, owns_erase, Set.mem_sdiff, Set.mem_singleton_iff, Prod.mk.injEq]
  by_cases same : place = address
  · subst same
    simp only [ne_eq, not_true, false_and, true_and, owns_iff_of_found found, false_iff, not_and,
      not_not]
    exact Owners.isLast_iff.mp last other
  · simp [same]

/-- The owners map is determined by the relation it stands for. -/
theorem owners_eq_of_ownership {other : PeerSet} (same : peers.ownership = other.ownership) :
    peers.owners = other.owners := by
  have owns (pod address) : peers.Owns pod address ↔ other.Owns pod address := by
    rw [← mem_ownership, ← mem_ownership, same]
  refine Std.ExtTreeMap.ext_getElem? fun {address} => ?_
  cases left : peers.owners[address]? with
  | none =>
      cases right : other.owners[address]? with
      | none => rfl
      | some owners =>
          obtain ⟨pod, member⟩ := owners.exists_mem
          exact absurd ((owns pod address).mpr ((owns_iff_of_found right).mpr member))
            (not_owns_of_missing left)
  | some owners =>
      cases right : other.owners[address]? with
      | none =>
          obtain ⟨pod, member⟩ := owners.exists_mem
          exact absurd ((owns pod address).mp ((owns_iff_of_found left).mpr member))
            (not_owns_of_missing right)
      | some owners' =>
          congr 1
          refine Owners.eq_of_mem_iff fun pod => ?_
          rw [← owns_iff_of_found left, ← owns_iff_of_found right, owns]

def members (peers : PeerSet) (family : Family) : AddressSet :=
  Std.ExtTreeSet.ofList (peers.addresses.filter (·.family = family))

@[simp] theorem mem_addresses : address ∈ peers.addresses ↔ address ∈ peers.owners :=
  Std.ExtTreeMap.mem_keys

@[simp] theorem mem_members {family : Family} :
    address ∈ peers.members family ↔ address ∈ peers.owners ∧ address.family = family := by
  simp [members, Std.ExtTreeSet.mem_ofList]

theorem addresses_sorted (peers : PeerSet) : Address.Sorted peers.addresses :=
  Std.ExtTreeMap.ordered_keys.imp Address.compare_eq_lt.mp

theorem members_toList (peers : PeerSet) (family : Family) :
    (peers.members family).toList = peers.addresses.filter (·.family = family) := by
  have sorted : Address.Sorted (peers.members family).toList :=
    Std.ExtTreeSet.ordered_toList.imp Address.compare_eq_lt.mp
  refine sorted.eq_of_mem_iff (peers.addresses_sorted.filter _) fun address => ?_
  simp [Std.ExtTreeSet.mem_toList]

theorem mem_ownedBy : address ∈ peers.ownedBy pod ↔ peers.Owns pod address := by
  simp [ownedBy, Owns, Std.ExtTreeMap.mem_toList_iff_getElem?_eq_some]

theorem ownedBy_sorted (peers : PeerSet) (pod : PodKey) : Address.Sorted (peers.ownedBy pod) := by
  rw [Address.Sorted, ownedBy, List.pairwise_map]
  exact (Std.ExtTreeMap.ordered_keys_toList.imp Address.compare_eq_lt.mp).filter _

/-- Once the lowest of its addresses is given up, a pod owns the rest of them. -/
theorem mem_rest_iff {next : PeerSet} {lowest : Address} {addresses : List Address}
    (lowestFirst : ∀ address ∈ addresses, lowest.rank < address.rank)
    (owned : ∀ address, address ∈ lowest :: addresses ↔ peers.Owns pod address)
    (shrunk : next.ownership = peers.ownership \ {(lowest, pod)}) (address : Address) :
    address ∈ addresses ↔ next.Owns pod address := by
  rw [← mem_ownership, shrunk, Set.mem_sdiff, mem_ownership, ← owned]
  have distinct : address ∈ addresses → address ≠ lowest := by
    rintro member rfl
    exact absurd (lowestFirst address member) (Nat.lt_irrefl _)
  simp only [List.mem_cons, Set.mem_singleton_iff, Prod.mk.injEq, and_true]
  constructor
  · intro member
    exact ⟨.inr member, distinct member⟩
  · rintro ⟨head | member, different⟩
    · exact absurd head different
    · exact member

end PeerSet

end PolicyAcl
