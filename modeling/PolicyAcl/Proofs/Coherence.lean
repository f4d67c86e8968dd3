import PolicyAcl.Proofs.Ownership
import PolicyAcl.Proofs.Plans
import PolicyAcl.Proofs.Session

/-! The store and the owners of a peer set never diverge. A backing set holds the
owned addresses of its family, whichever call failed last, and a family without a
backing set has left nothing in the store. -/
namespace PolicyAcl

open Store (Contents)

/-- A half that is absent or empty. -/
def Vacant (half : Option AddressSet) : Prop := half = none ∨ half = some ∅

namespace PeerSet

/-- What ties a peer set to the two halves of its base name in the store. The
families are those it was backed for at first. -/
structure Coherent (base : String) (families : Families) (peers : PeerSet) (contents : Contents) :
    Prop where
  name : peers.name = base
  named : peers.backing.Named base
  enabled : ∀ family, peers.backing.handle? family ≠ none → families.isEnabled family = true
  backed : ∀ family, peers.backing.handle? family ≠ none →
    contents.half base family = some (peers.members family)
  -- A family that was never enabled may have an empty set of somebody's making.
  vacant : ∀ family, peers.backing.handle? family = none → Vacant (contents.half base family)
  released : ∀ family, peers.backing.handle? family = none →
    families.isEnabled family = true → contents.half base family = none
  owned : ∀ address ∈ peers.owners, families.isEnabled address.family = true

section
variable {base : String} {families : Families} {peers next : PeerSet} {contents after : Contents}
  {address : Address} {pod : PodKey} {owners : Owners}

theorem members_congr (same : ∀ address, address ∈ next.owners ↔ address ∈ peers.owners) :
    next.members = peers.members := by
  funext family
  refine Std.ExtTreeSet.ext_mem fun address => ?_
  simp only [mem_members, same]

theorem members_update {changed : Std.ExtTreeMap Address Owners} {family : Family}
    {new : AddressSet} (inside : ∀ address, address ∈ new ↔ address ∈ changed ∧ address.family = family)
    (outside : ∀ address, address.family ≠ family →
      (address ∈ changed ↔ address ∈ peers.owners)) :
    { peers with owners := changed }.members = Function.update peers.members family new := by
  funext other
  refine Std.ExtTreeSet.ext_mem fun address => ?_
  rw [mem_members]
  by_cases same : other = family
  · subst same
    rw [Function.update_self, inside]
  · rw [Function.update_of_ne same, mem_members]
    constructor
    · rintro ⟨member, rfl⟩
      exact ⟨(outside address same).mp member, rfl⟩
    · rintro ⟨member, rfl⟩
      exact ⟨(outside address same).mpr member, rfl⟩

theorem members_insert (peers : PeerSet) (address : Address) (owners : Owners) :
    { peers with owners := peers.owners.insert address owners }.members =
      Function.update peers.members address.family
        ((peers.members address.family).insert address) := by
  refine members_update (fun other => ?_) fun other different => ?_
  · by_cases same : address = other
    · subst same
      simp
    · simp [same]
  · have distinct : address ≠ other := fun same => different (by rw [same])
    simp [distinct]

theorem members_erase (peers : PeerSet) (address : Address) :
    { peers with owners := peers.owners.erase address }.members =
      Function.update peers.members address.family
        ((peers.members address.family).erase address) := by
  refine members_update (fun other => ?_) fun other different => ?_
  · simp [and_assoc]
  · have distinct : address ≠ other := fun same => different (by rw [same])
    simp [distinct]

theorem Coherent.same_addresses (h : peers.Coherent base families contents)
    {changed : Std.ExtTreeMap Address Owners}
    (same : ∀ address, address ∈ changed ↔ address ∈ peers.owners) :
    { peers with owners := changed }.Coherent base families contents where
  name := h.name
  named := h.named
  enabled := h.enabled
  backed family backed := by
    exact (h.backed family backed).trans (congrArg some (congrFun (members_congr same) family).symm)
  vacant := h.vacant
  released := h.released
  owned address member := h.owned address ((same address).mp member)

theorem Coherent.of_half (h : peers.Coherent base families contents)
    (same : after.half base = contents.half base) : peers.Coherent base families after := by
  obtain ⟨name, named, enabled, backed, vacant, released, owned⟩ := h
  rw [← same] at backed vacant released
  exact ⟨name, named, enabled, backed, vacant, released, owned⟩

theorem mem_of_found (found : peers.owners[address]? = some owners) : address ∈ peers.owners := by
  simp [Std.ExtTreeMap.mem_iff_isSome_getElem?, found]

theorem mem_insert_of_found (found : peers.owners[address]? = some owners) (others : Owners)
    (other : Address) : other ∈ peers.owners.insert address others ↔ other ∈ peers.owners := by
  simp only [Std.ExtTreeMap.mem_insert, Std.LawfulEqCmp.compare_eq_iff_eq, or_iff_right_iff_imp]
  rintro rfl
  exact mem_of_found found

/-- Halves that hold the owned addresses of their families hold them again after one of
them changes together with its family. -/
theorem holds_update {Backed : Family → Prop} {family : Family} {new : AddressSet}
    (holds : ∀ family, Backed family → contents.half base family = some (peers.members family))
    (members : next.members = Function.update peers.members family new)
    (halves : after.half base = Function.update (contents.half base) family (some new))
    (other : Family) (backed : Backed other) : after.half base other = some (next.members other) := by
  rw [members, halves]
  by_cases same : other = family
  · subst same
    simp only [Function.update_self]
  · simp only [Function.update_of_ne same]
    exact holds other backed

/-- A backed half changes together with the owned addresses of its family. -/
theorem Coherent.update_half (h : peers.Coherent base families contents)
    {changed : Std.ExtTreeMap Address Owners} {family : Family} {new : AddressSet}
    (handle : peers.backing.handle? family ≠ none)
    (members : { peers with owners := changed }.members = Function.update peers.members family new)
    (halves : after.half base = Function.update (contents.half base) family (some new)) :
    { peers with owners := changed }.Coherent base families after where
  name := h.name
  named := h.named
  enabled := h.enabled
  backed := holds_update h.backed members halves
  vacant other unbacked := by
    have distinct : other ≠ family := fun same => handle (same ▸ unbacked)
    rw [halves, Function.update_of_ne distinct]
    exact h.vacant other unbacked
  released other unbacked := by
    have distinct : other ≠ family := fun same => handle (same ▸ unbacked)
    rw [halves, Function.update_of_ne distinct]
    exact h.released other unbacked
  owned address member := by
    by_cases same : address.family = family
    · rw [same]
      exact h.enabled family handle
    · have inside : address ∈ { peers with owners := changed }.members address.family :=
        mem_members.mpr ⟨member, rfl⟩
      rw [members, Function.update_of_ne same] at inside
      exact h.owned address (mem_members.mp inside).1

theorem Coherent.add (h : peers.Coherent base families contents)
    (performed : (addPlan (address, pod) peers).perform contents = .ok (next, after)) :
    next.Coherent base families after := by
  rcases addPlan_perform performed with ⟨owners, found, rfl, rfl⟩ | ⟨set, -, handle, added, rfl⟩
  · exact h.same_addresses (mem_insert_of_found found _)
  · have backed : peers.backing.handle? address.family ≠ none := by simp [handle]
    refine h.update_half backed (peers.members_insert address _) ?_
    rw [Contents.half_perform added (h.named _ set handle), h.backed _ backed]
    rfl

theorem Coherent.remove (h : peers.Coherent base families contents)
    (performed : (removePlan pod address peers).perform contents = .ok (next, after)) :
    next.Coherent base families after := by
  rcases removePlan_perform performed with
    ⟨-, rfl, rfl⟩ | ⟨owners, others, found, rfl, rfl⟩ | ⟨owners, set, found, -, handle, deleted, rfl⟩
  · exact h
  · exact h.same_addresses (mem_insert_of_found found _)
  · have backed : peers.backing.handle? address.family ≠ none := by simp [handle]
    refine h.update_half backed (peers.members_erase address) ?_
    rw [Contents.half_perform deleted (h.named _ set handle), h.backed _ backed]
    rfl

theorem Coherent.destroy {family : Family} (h : peers.Coherent base families contents)
    (performed : (destroyPlan family peers).perform contents = .ok (next, after)) :
    next.Coherent base families after := by
  cases handle : peers.backing.handle? family with
  | none =>
      rw [destroyPlan_released handle] at performed
      cases performed
      exact h
  | some set =>
      rw [destroyPlan_backed handle, Intent.perform_submit] at performed
      obtain ⟨rfl, performed⟩ := performed
      have halves : after.half base = Function.update (contents.half base) family none :=
        Contents.half_perform performed (h.named _ set handle)
      have kept (other : Family) (backed : (peers.backing.forget family).handle? other ≠ none) :
          other ≠ family ∧ peers.backing.handle? other ≠ none := by
        rw [Backing.handle?_forget] at backed
        split at backed
        · exact absurd rfl backed
        · next distinct => exact ⟨distinct, backed⟩
      refine ⟨h.name, fun other set named => ?_, fun other backed => ?_, fun other backed => ?_,
        fun other unbacked => ?_, fun other unbacked enabled => ?_, h.owned⟩
      · rw [Backing.handle?_forget] at named
        split at named
        · cases named
        · exact h.named other set named
      · exact h.enabled other (kept other backed).2
      · obtain ⟨distinct, backed⟩ := kept other backed
        rw [halves, Function.update_of_ne distinct]
        exact h.backed other backed
      · rw [halves]
        by_cases same : other = family
        · subst same
          rw [Function.update_self]
          exact .inl rfl
        · rw [Function.update_of_ne same]
          refine h.vacant other ?_
          simpa [same] using unbacked
      · rw [halves]
        by_cases same : other = family
        · subst same
          rw [Function.update_self]
        · rw [Function.update_of_ne same]
          refine h.released other ?_ enabled
          simpa [same] using unbacked

/-- While halves are being ensured, those that are there already are empty. -/
structure Ensuring (base : String) (families : Families) (backing : Backing)
    (contents : Contents) : Prop where
  handle : ∀ family set, backing.handle? family = some set →
    set = family.setName base ∧ families.isEnabled family = true ∧
      contents.half base family = some ∅
  vacant : ∀ family, Vacant (contents.half base family)

theorem Ensuring.step {family : Family} {backing reached : Backing}
    (h : Ensuring base families backing contents) (enabled : families.isEnabled family = true)
    (performed : (ensurePlan base family backing).perform contents = .ok (reached, after)) :
    Ensuring base families reached after := by
  rw [ensurePlan, Intent.perform_submit] at performed
  obtain ⟨rfl, performed⟩ := performed
  have empty : (contents.half base family).getD ∅ = ∅ := by
    rcases h.vacant family with none | some <;> simp [*]
  have halves : after.half base = Function.update (contents.half base) family (some ∅) := by
    rw [Contents.half_perform performed rfl, Store.Call.effect, empty]
  constructor
  · intro other set named
    rw [Backing.handle?_put] at named
    rw [halves]
    by_cases same : other = family
    · subst same
      rw [if_pos rfl, Option.some.injEq] at named
      exact ⟨named.symm, enabled, Function.update_self ..⟩
    · rw [if_neg same] at named
      rw [Function.update_of_ne same]
      exact h.handle other set named
  · intro other
    rw [halves]
    by_cases same : other = family
    · subst same
      rw [Function.update_self]
      exact .inr rfl
    · rw [Function.update_of_ne same]
      exact h.vacant other

theorem ensurePlan_next {family : Family} {backing reached : Backing}
    (performed : (ensurePlan base family backing).perform contents = .ok (reached, after)) :
    reached = backing.put (family.setName base) family := by
  rw [ensurePlan, Intent.perform_submit] at performed
  exact performed.1.symm

theorem destroyPlan_next {family : Family}
    (performed : (destroyPlan family peers).perform contents = .ok (next, after)) (other : Family) :
    next.backing.handle? other = if other = family then none else peers.backing.handle? other := by
  cases handle : peers.backing.handle? family with
  | none =>
      rw [destroyPlan_released handle] at performed
      cases performed
      split
      next same => rw [same, handle]
      next => rfl
  | some set =>
      rw [destroyPlan_backed handle, Intent.perform_submit] at performed
      obtain ⟨rfl, -⟩ := performed
      exact Backing.handle?_forget ..

theorem destroyPlan_handles {family other : Family} {set : String}
    (performed : (destroyPlan family peers).perform contents = .ok (next, after))
    (backed : next.backing.handle? other = some set) : peers.backing.handle? other = some set := by
  rw [destroyPlan_next performed] at backed
  split at backed
  · cases backed
  · exact backed

theorem performEach_ensure_backs {items : List Family} {backing reached : Backing}
    (performed : Intent.performEach (ensurePlan base) items backing contents =
      .ok (reached, after)) {family : Family} (listed : family ∈ items) :
    reached.handle? family ≠ none := by
  refine Intent.performEach_settles (fun family backing _ => Backing.handle? backing family ≠ none)
    ?_ ?_ performed (.inl listed)
  · intro item backing contents next after h
    simp [ensurePlan_next h]
  · intro item other backing contents next after handle h
    rw [ensurePlan_next h, Backing.handle?_put]
    split
    · simp
    · exact handle

theorem performEach_destroy_handles {items : List Family}
    (performed : Intent.performEach destroyPlan items peers contents = .ok (next, after))
    (family : Family) :
    next.backing.handle? family = if family ∈ items then none else peers.backing.handle? family := by
  induction items generalizing peers contents with
  | nil =>
      cases performed
      rfl
  | cons item items ih =>
      rw [Intent.performEach] at performed
      split at performed
      next middle between first =>
        rw [ih performed, destroyPlan_next first]
        by_cases same : family = item <;> simp [same]
      next => cases performed

/-- A peer set that is ensured has no owners, and a backing set for each enabled
family. -/
theorem ensure_backs {store last : Store}
    (ensured : PeerSet.ensure base families store = (.ok peers, last)) :
    peers.name = base ∧ peers.owners = ∅ ∧
      ∀ family, families.isEnabled family = true → peers.backing.handle? family ≠ none := by
  obtain ⟨backing, worked, rfl⟩ := ensure_ok ensured
  exact ⟨rfl, rfl, fun family enabled =>
    performEach_ensure_backs (Intent.each_done worked) (Families.mem_enabled.mpr enabled)⟩

/-- Ensuring a peer set ends coherent, or leaves both halves vacant. -/
theorem ensure_coherent (families : Families) (store : Store)
    (vacant : ∀ family, Vacant (store.contents.half base family)) :
    (∀ peers after, PeerSet.ensure base families store = (.ok peers, after) →
      peers.Coherent base families after.contents) ∧
    ∀ error after, PeerSet.ensure base families store = (.error error, after) →
      ∀ family, Vacant (after.contents.half base family) := by
  have start : Ensuring base families {} store.contents :=
    ⟨fun family set named => absurd named (by cases family <;> simp [Backing.handle?]), vacant⟩
  have ended := Intent.each_preserves (ensurePlan base) (Ensuring base families)
    (fun family (member : family ∈ families.enabled) backing contents reached after h performed =>
      h.step (Families.mem_enabled.mp member) performed) start
  constructor
  · intro peers after ensured
    obtain ⟨named, -, backs⟩ := ensure_backs ensured
    obtain ⟨backing, worked, rfl⟩ := ensure_ok ensured
    rw [worked] at ended
    refine ⟨named, fun family set handle => (ended.handle family set handle).1,
      fun family backed => ?_, fun family backed => ?_, fun family _ => ended.vacant family,
      fun family unbacked enabled => absurd unbacked (backs family enabled),
      fun address member => by simp at member⟩
    · obtain ⟨set, handle⟩ := Option.ne_none_iff_exists'.mp backed
      exact (ended.handle family set handle).2.1
    · obtain ⟨set, handle⟩ := Option.ne_none_iff_exists'.mp backed
      rw [(ended.handle family set handle).2.2]
      rfl
  · intro error after failed
    obtain ⟨backing, worked⟩ := ensure_error failed
    rw [worked] at ended
    exact ended.vacant

theorem Coherent.carryOut {intent : Intent PeerSet} {store : Store}
    (h : peers.Coherent base families store.contents)
    (step : ∀ next after, intent.perform store.contents = .ok (next, after) →
      next.Coherent base families after) :
    (intent.carryOut peers store).state.Coherent base families
      (intent.carryOut peers store).store.contents :=
  Intent.carryOut_preserves (Coherent base families) h step

theorem Coherent.addEach {store : Store} (h : peers.Coherent base families store.contents)
    (entries : List (Address × PodKey)) :
    (Intent.each addPlan entries peers store).state.Coherent base families
      (Intent.each addPlan entries peers store).store.contents :=
  Intent.each_preserves addPlan (Coherent base families)
    (fun _ _ _ _ _ _ kept performed => kept.add performed) h

theorem Coherent.removeAll {store : Store} (h : peers.Coherent base families store.contents)
    (pod : PodKey) :
    (peers.removeAll pod store).state.Coherent base families
      (peers.removeAll pod store).store.contents := by
  rw [PeerSet.removeAll, removeEach_eq]
  exact Intent.each_preserves (removePlan pod) (Coherent base families)
    (fun _ _ _ _ _ _ kept performed => kept.remove performed) h

theorem Coherent.destroyAll {store : Store} (h : peers.Coherent base families store.contents) :
    (peers.destroy store).state.Coherent base families (peers.destroy store).store.contents := by
  rw [destroy_eq]
  exact Intent.each_preserves destroyPlan (Coherent base families)
    (fun _ _ _ _ _ _ kept performed => kept.destroy performed) h

theorem destroy_releases {store : Store} (done : (peers.destroy store).answer = .ok ())
    (family : Family) : (peers.destroy store).state.backing.handle? family = none := by
  rw [destroy_eq] at done ⊢
  cases ended : Intent.each destroyPlan [.v4, .v6] peers store with
  | mk answer next after =>
      rw [ended] at done
      obtain rfl : answer = .ok () := done
      rw [performEach_destroy_handles (Intent.each_done ended), if_pos (by cases family <;> simp)]

/-- A destroy that fails has dropped the handles of the families before the one it
stops at, and no other. -/
theorem destroy_stops {store : Store} {error : PeerError}
    (failed : (peers.destroy store).answer = .error error) :
    ∃ family set cause, peers.backing.handle? family = some set ∧ error = .destroy set cause ∧
      ∀ other, (peers.destroy store).state.backing.handle? other =
        if other = .v4 ∧ family = .v6 then none else peers.backing.handle? other := by
  rw [destroy_eq] at failed ⊢
  cases ended : Intent.each destroyPlan [.v4, .v6] peers store with
  | mk answer next after =>
      rw [ended] at failed
      obtain rfl : answer = .error error := failed
      obtain ⟨done, family, rest, reached, between, split, performed, stuck⟩ := Intent.each_error ended
      have handles := performEach_destroy_handles performed
      cases handle : reached.backing.handle? family with
      | none =>
          rw [destroyPlan_released handle] at stuck
          cases stuck
      | some set =>
          rw [destroyPlan_backed handle] at stuck
          cases answered : between.answer (.destroy set) with
          | ok contents =>
              rw [Intent.carryOut_of_ok reached answered] at stuck
              cases stuck
          | error cause =>
              rw [Intent.carryOut_of_error reached answered] at stuck
              cases stuck
              have before (other : Family) : other ∈ done ↔ other = .v4 ∧ family = .v6 := by
                rcases done with - | ⟨first, - | ⟨second, done⟩⟩ <;> simp at split
                · simp [← split.1]
                · obtain ⟨rfl, rfl, -⟩ := split
                  simp
              have kept : peers.backing.handle? family = some set := by
                rw [← handle, handles, if_neg]
                rw [before]
                rintro ⟨rfl, ⟨⟩⟩
              refine ⟨family, set, cause, kept, rfl, fun other => ?_⟩
              simp only [handles, before]

theorem Coherent.apply {store : Store} (h : peers.Coherent base families store.contents)
    (operation : PeerSet.Operation) :
    (operation.apply peers store).state.Coherent base families
      (operation.apply peers store).store.contents := by
  cases operation with
  | owners change =>
      cases change with
      | add address pod =>
          simp only [Operation.apply, OwnerChange.apply, Outcome.map, addOwner_eq]
          exact h.carryOut fun _ _ performed => h.add performed
      | remove address pod =>
          simp only [Operation.apply, OwnerChange.apply, Outcome.map, removeOwner_eq]
          exact h.carryOut fun _ _ performed => h.remove performed
      | removeAll pod => exact h.removeAll pod
  | destroy => exact h.destroyAll

end

end PeerSet

end PolicyAcl
