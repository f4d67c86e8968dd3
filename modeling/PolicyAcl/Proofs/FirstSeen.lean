import Mathlib.Data.List.Induction
import Mathlib.Data.List.Sort
import PolicyAcl.Pod

/-! Addresses in the order in which they are first seen. A pod keeps that order, drops what
has been seen before, and is told apart from other pods of its key by nothing else. -/
namespace PolicyAcl

theorem eraseDups_of_nodup {addresses : List Address} (nodup : addresses.Nodup) :
    addresses.eraseDups = addresses := by
  induction addresses with
  | nil => rfl
  | cons address addresses ih =>
      obtain ⟨new, rest⟩ := List.nodup_cons.mp nodup
      have kept : addresses.filter (fun other => !other == address) = addresses := by
        refine List.filter_eq_self.mpr fun other member => ?_
        have different : other ≠ address := fun same => new (same ▸ member)
        simpa using different
      rw [List.eraseDups_cons, kept, ih rest]

/-- An address that has been seen makes no difference. -/
theorem eraseDups_seen {front : List Address} {address : Address} (seen : address ∈ front)
    (back : List Address) : (front ++ address :: back).eraseDups = (front ++ back).eraseDups := by
  have dropped : (address :: back).removeAll front = back.removeAll front := by
    simp [List.removeAll, seen]
  rw [List.eraseDups_append, List.eraseDups_append, dropped]

theorem eraseDups_unseen {front : List Address} {address : Address} (new : address ∉ front) :
    (front ++ [address]).eraseDups = front.eraseDups ++ [address] := by
  simp [List.eraseDups_append, List.removeAll, new, List.eraseDups_cons]

/-- Both addresses are in the list, and the first place of the one is before the first place of
the other. -/
def SeenBefore (addresses : List Address) (earlier later : Address) : Prop :=
  later ∈ addresses ∧ addresses.idxOf earlier < addresses.idxOf later

/-- What is left of a list if every address is kept at its first place only. -/
structure FirstSeen (seen kept : List Address) : Prop where
  nodup : kept.Nodup
  members : ∀ address, address ∈ kept ↔ address ∈ seen
  order : ∀ earlier later, SeenBefore kept earlier later ↔ SeenBefore seen earlier later

section
variable {seen others kept kept' : List Address} {earlier later address : Address}

theorem seenBefore_irrefl (seen : List Address) (address : Address) :
    ¬SeenBefore seen address address := fun before => Nat.lt_irrefl _ before.2

theorem SeenBefore.asymm (before : SeenBefore seen earlier later) :
    ¬SeenBefore seen later earlier := fun after => Nat.lt_asymm before.2 after.2

theorem seenBefore_concat_seen (known : later ∈ seen) :
    SeenBefore (seen ++ [address]) earlier later ↔ SeenBefore seen earlier later := by
  have bound := List.idxOf_lt_length_of_mem known
  simp only [SeenBefore, List.mem_append, known, true_or, true_and, List.idxOf_append, if_true]
  split
  next => rfl
  next unseen =>
    rw [List.idxOf_eq_length unseen]
    omega

theorem seenBefore_concat_unseen (new : address ∉ seen) :
    SeenBefore (seen ++ [address]) earlier address ↔ earlier ∈ seen := by
  by_cases known : earlier ∈ seen
  · simp [SeenBefore, List.idxOf_append, new, known, List.idxOf_lt_length_of_mem known]
  · simp [SeenBefore, List.idxOf_append, new, known]

/-- A further address comes behind all that have been seen, unless it has been seen itself. -/
theorem seenBefore_concat :
    SeenBefore (seen ++ [address]) earlier later ↔
      if later ∈ seen then SeenBefore seen earlier later else later = address ∧ earlier ∈ seen := by
  split
  next known => exact seenBefore_concat_seen known
  next new =>
    constructor
    · intro before
      obtain known | rfl := List.mem_append.mp before.1 |>.imp_right List.mem_singleton.mp
      · exact absurd known new
      · exact ⟨rfl, (seenBefore_concat_unseen new).mp before⟩
    · rintro ⟨rfl, known⟩
      exact (seenBefore_concat_unseen new).mpr known

theorem seenBefore_eraseDups (seen : List Address) (earlier later : Address) :
    SeenBefore seen.eraseDups earlier later ↔ SeenBefore seen earlier later := by
  -- The last address decides: it is dropped as a repeat or put behind all others.
  induction seen using List.reverseRecOn with
  | nil => rfl
  | append_singleton seen address ih =>
      by_cases known : address ∈ seen
      · rw [eraseDups_seen known, List.append_nil, ih, seenBefore_concat]
        split
        next => rfl
        next new =>
          refine iff_of_false (fun before => new before.1) ?_
          rintro ⟨rfl, -⟩
          exact new known
      · rw [eraseDups_unseen known, seenBefore_concat, seenBefore_concat]
        simp only [ih, List.mem_eraseDups]

theorem firstSeen_eraseDups (seen : List Address) : FirstSeen seen seen.eraseDups where
  nodup := eraseDups_nodup seen
  members _ := List.mem_eraseDups
  order := seenBefore_eraseDups seen

/-- A list without repeats is in the order in which it is seen. -/
theorem pairwise_seenBefore (nodup : kept.Nodup) : kept.Pairwise (SeenBefore kept) := by
  refine List.pairwise_iff_getElem.mpr fun first second inside inside' below => ?_
  refine ⟨List.getElem_mem inside', ?_⟩
  rw [nodup.idxOf_getElem, nodup.idxOf_getElem]
  exact below

theorem FirstSeen.unique (one : FirstSeen seen kept) (two : FirstSeen seen kept') : kept = kept' := by
  have irrefl : Std.Irrefl (SeenBefore seen) := ⟨seenBefore_irrefl seen⟩
  have antisymm : Std.Antisymm (SeenBefore seen) :=
    ⟨fun _ _ before after => absurd after before.asymm⟩
  have sorted : kept.Pairwise (SeenBefore seen) :=
    (pairwise_seenBefore one.nodup).imp (one.order _ _).mp
  have sorted' : kept'.Pairwise (SeenBefore seen) :=
    (pairwise_seenBefore two.nodup).imp (two.order _ _).mp
  exact sorted.eq_of_mem_iff sorted' fun address =>
    (one.members address).trans (two.members address).symm

/-- Two lists leave the same if they have the same addresses and see them in the same order. -/
theorem eraseDups_eq_iff :
    seen.eraseDups = others.eraseDups ↔
      (∀ address, address ∈ seen ↔ address ∈ others) ∧
      ∀ earlier later, SeenBefore seen earlier later ↔ SeenBefore others earlier later := by
  have left := firstSeen_eraseDups seen
  have right := firstSeen_eraseDups others
  constructor
  · intro same
    rw [← same] at right
    exact ⟨fun address => (left.members address).symm.trans (right.members address),
      fun earlier later => (left.order earlier later).symm.trans (right.order earlier later)⟩
  · rintro ⟨members, order⟩
    refine left.unique ⟨right.nodup, fun address => ?_, fun earlier later => ?_⟩
    · rw [right.members, members]
    · rw [right.order, order]

end

namespace Pod

theorem ofAddresses_eraseDups (key : PodKey) (addresses : List Address) :
    Pod.ofAddresses key addresses.eraseDups = Pod.ofAddresses key addresses := by
  simp only [Pod.ofAddresses, eraseDups_of_nodup (eraseDups_nodup addresses)]

theorem ofAddresses_addresses (pod : Pod) : Pod.ofAddresses pod.key pod.addresses = pod := by
  simp only [Pod.ofAddresses, eraseDups_of_nodup pod.nodup]

theorem ofAddresses_eq_iff {key other : PodKey} {addresses others : List Address} :
    Pod.ofAddresses key addresses = Pod.ofAddresses other others ↔
      key = other ∧ addresses.eraseDups = others.eraseDups := by
  simp only [Pod.ofAddresses, Pod.mk.injEq]

theorem eq_ofAddresses_iff {pod : Pod} {key : PodKey} {addresses : List Address} :
    pod = Pod.ofAddresses key addresses ↔ pod.key = key ∧ FirstSeen addresses pod.addresses := by
  constructor
  · rintro rfl
    exact ⟨rfl, firstSeen_eraseDups addresses⟩
  · rintro ⟨rfl, kept⟩
    have same := kept.unique (firstSeen_eraseDups addresses)
    calc pod = ofAddresses pod.key pod.addresses := pod.ofAddresses_addresses.symm
      _ = ofAddresses pod.key addresses := by rw [same, ofAddresses_eraseDups]

end Pod

end PolicyAcl
