import PolicyAcl.Proofs.Bookkeeping
import PolicyAcl.Proofs.Reach

/-! Peer sets with different base names on one store do not interfere. Whoever keeps one
of them gets the same answers and finds the same sets as if the other were not there, in
whatever order the two are at work and whatever the store refuses meanwhile. -/
namespace PolicyAcl

open Store (Contents Faults)

def Rule.Edit.answer? : Rule.Edit → Rule → Option Bool
  | .addNamespace name, rule => some (rule.addNamespace name).1
  | .removeNamespace name, rule => some (rule.removeNamespace name).1
  | _, _ => none

/-- Somebody who keeps a peer set in a store: a rule, or a caller that ensures a peer set
of its own. -/
inductive Keeper where
  | ofRule (rule : Rule)
  | ofSet (name : String) (peers : Option PeerSet)

namespace Keeper

def base : Keeper → String
  | .ofRule rule => rule.id.setName
  | .ofSet name _ => name

def peers? : Keeper → Option PeerSet
  | .ofRule rule => rule.peers
  | .ofSet _ peers => peers

def withPeers : Keeper → PeerSet → Keeper
  | .ofRule rule, peers => .ofRule { rule with peers := some peers }
  | .ofSet name _, peers => .ofSet name (some peers)

/-- The two sets that a base name stands for. -/
def halves (base : String) : Set String := {set | ∃ family, set = Family.setName family base}

/-- The handles of the peer set are halves of the base name, as ensuring it makes them. -/
def Named (keeper : Keeper) : Prop :=
  ∀ peers, keeper.peers? = some peers → peers.Within (halves keeper.base)

inductive Deed where
  | work (operation : Rule.Operation)
  | edit (change : Rule.Edit)
  | ensure (families : Families)
  | change (operation : PeerSet.Operation)

/-- A deed of the other kind of keeper, or on a peer set that is missing, does nothing. -/
def Deed.apply : Deed → Keeper → Store → Outcome Keeper (Option Bool)
  | .work operation, .ofRule rule, store =>
    (operation.apply rule store).conclude fun answer rule => (answer.map fun _ => none, .ofRule rule)
  | .edit update, .ofRule rule, store =>
    ⟨.ok (update.answer? rule), .ofRule (update.apply rule), store⟩
  | .ensure families, .ofSet name peers, store =>
    (PeerSet.renew name families peers store).conclude fun answer peers =>
      (answer.map fun _ => none, .ofSet name peers)
  | .change operation, keeper, store =>
    match keeper.peers? with
    | none => ⟨.ok none, keeper, store⟩
    | some peers =>
      (operation.apply peers store).conclude fun answer peers => (answer, keeper.withPeers peers)
  | _, keeper, store => ⟨.ok none, keeper, store⟩

/-- What a keeper finds after a deed: the answer, what it remembers, and the two halves of
its base name with the number of times that each was created. -/
structure Sight where
  answer : Except PeerError (Option Bool)
  keeper : Keeper
  sets : Family → Option (List Address)
  creations : Family → Nat

def sight (outcome : Outcome Keeper (Option Bool)) : Sight where
  answer := outcome.answer
  keeper := outcome.state
  sets family := outcome.store.addresses? (family.setName outcome.state.base)
  creations family := outcome.store.creations (family.setName outcome.state.base)

/-- The deeds of one keeper, each under the faults of its moment. -/
def alone : List (Faults × Deed) → Keeper → Store → List Sight × Keeper × Store
  | [], one, store => ([], one, store)
  | (faults, deed) :: steps, one, store =>
    let outcome := deed.apply one (store.withFaults faults)
    let (sights, last) := alone steps outcome.state outcome.store
    (sight outcome :: sights, last)

/-- The deeds of two keepers in one order, and what the first one finds after its own. -/
def together : List (Faults × (Deed ⊕ Deed)) → Keeper → Keeper → Store →
    List Sight × Keeper × Keeper × Store
  | [], one, other, store => ([], one, other, store)
  | (faults, .inl deed) :: steps, one, other, store =>
    let outcome := deed.apply one (store.withFaults faults)
    let (sights, last) := together steps outcome.state other outcome.store
    (sight outcome :: sights, last)
  | (faults, .inr deed) :: steps, one, other, store =>
    let outcome := deed.apply other (store.withFaults faults)
    together steps one outcome.state outcome.store

/-- The steps of the first keeper, with their faults. -/
def own (steps : List (Faults × (Deed ⊕ Deed))) : List (Faults × Deed) :=
  steps.filterMap fun (faults, deed) => deed.getLeft?.map (faults, ·)

variable {base name : String} {keeper one other : Keeper} {store alike : Store}

theorem setName_mem_halves (family : Family) (base : String) : family.setName base ∈ halves base :=
  ⟨family, rfl⟩

/-- Different base names have no set in common, across families either. -/
theorem not_mem_halves (different : base ≠ name) {set : String} (member : set ∈ halves base) :
    set ∉ halves name := by
  obtain ⟨family, rfl⟩ := member
  rintro ⟨other, same⟩
  exact different (Family.setName_inj.mp same).2

theorem Named.withPeers (based : keeper.base = base) {peers : PeerSet}
    (kept : peers.Within (halves base)) :
    (keeper.withPeers peers).base = base ∧ (keeper.withPeers peers).Named := by
  subst based
  cases keeper with
  | ofRule rule => exact ⟨rfl, fun other there => Option.some.inj there ▸ kept⟩
  | ofSet name current => exact ⟨rfl, fun other there => Option.some.inj there ▸ kept⟩

/-- No deed reaches a set outside the halves of the keeper's base name. -/
theorem Deed.confined (deed : Deed) (named : keeper.Named) :
    Confined (halves keeper.base) (fun next => next.base = keeper.base ∧ next.Named)
      (deed.apply keeper) := by
  cases deed with
  | work operation =>
      cases keeper with
      | ofRule rule =>
          have reach : rule.Within (halves rule.id.setName) :=
            ⟨fun family _ => setName_mem_halves family _, named⟩
          have same (store : Store) : (operation.apply rule store).state.id = rule.id := by
            obtain ⟨peers, same⟩ := operation.apply_state rule store
            rw [same]
          have work := (operation.confined reach).and (fun next => next.id = rule.id) same
          refine work.conclude (fun answer next => (answer.map fun _ => none, ofRule next)) ?_
          rintro answer next ⟨kept, same⟩
          have based : next.id.setName = rule.id.setName := congrArg RuleId.setName same
          refine ⟨based, ?_⟩
          intro peers there
          rw [base, based]
          exact kept.backing peers there
      | ofSet name current => exact .idle (.ok none) ⟨rfl, named⟩
  | edit update =>
      cases keeper with
      | ofRule rule =>
          refine .idle (.ok (update.answer? rule)) ?_
          cases update <;> exact ⟨rfl, named⟩
      | ofSet name current => exact .idle (.ok none) ⟨rfl, named⟩
  | ensure families =>
      cases keeper with
      | ofRule rule => exact .idle (.ok none) ⟨rfl, named⟩
      | ofSet name current =>
          have reach (family : Family) (_ : families.isEnabled family = true) :
              family.setName name ∈ halves name := setName_mem_halves family name
          refine (PeerSet.renew_confined reach named).conclude
            (fun answer next => (answer.map fun _ => none, ofSet name next)) ?_
          exact fun answer next kept => ⟨rfl, kept⟩
  | change operation =>
      cases found : keeper.peers? with
      | none =>
          have same : (Deed.change operation).apply keeper = fun store => ⟨.ok none, keeper, store⟩ := by
            funext store
            simp only [Deed.apply, found]
          rw [same]
          exact .idle (.ok none) ⟨rfl, named⟩
      | some peers =>
          have same : (Deed.change operation).apply keeper = fun store =>
              (operation.apply peers store).conclude fun answer peers =>
                (answer, keeper.withPeers peers) := by
            funext store
            simp only [Deed.apply, found]
          rw [same]
          exact (operation.confined (named peers found)).conclude _
            fun answer next kept => Named.withPeers rfl kept

theorem sight_eq {names : Set String} {ended ended' : Outcome Keeper (Option Bool)}
    (agree : ended.AgreeOn names ended')
    (within : ∀ family, Family.setName family ended.state.base ∈ names) :
    sight ended = sight ended' := by
  obtain ⟨answer, state, contents⟩ := agree
  unfold sight Store.addresses? Store.creations
  rw [answer, ← state]
  congr 1
  · funext family
    rw [(contents _ (within family)).1]
  · funext family
    exact (contents _ (within family)).2

theorem together_kept (named : one.Named) (named' : other.Named)
    (steps : List (Faults × (Deed ⊕ Deed))) (store : Store) :
    let (_, last, rest, _) := together steps one other store
    (last.base = one.base ∧ last.Named) ∧ rest.base = other.base ∧ rest.Named := by
  induction steps generalizing one other store with
  | nil => exact ⟨⟨rfl, named⟩, rfl, named'⟩
  | cons step steps ih =>
      obtain ⟨faults, deed | deed⟩ := step
      · obtain ⟨based, kept⟩ := (deed.confined named).kept (store.withFaults faults)
        rw [← based]
        exact ih kept named' _
      · obtain ⟨based, kept⟩ := (deed.confined named').kept (store.withFaults faults)
        rw [← based]
        exact ih named kept _

/-- The deeds of a keeper with another base name can be left out. -/
theorem together_agrees (different : one.base ≠ other.base) (named : one.Named)
    (named' : other.Named) (steps : List (Faults × (Deed ⊕ Deed)))
    (agree : store.contents.AgreeOn (halves one.base) alike.contents) :
    let (sights, last, _, after) := together steps one other store
    let (sights', last', after') := alone (own steps) one alike
    sights = sights' ∧ last = last' ∧ after.contents.AgreeOn (halves one.base) after'.contents := by
  induction steps generalizing one other store alike with
  | nil => exact ⟨rfl, rfl, agree⟩
  | cons step steps ih =>
      obtain ⟨faults, deed | deed⟩ := step
      · -- The first keeper does the same in both runs, since its two sets are the same.
        have confined := deed.confined named
        have ended := confined.agrees (store.withFaults faults) (alike.withFaults faults) rfl agree
        obtain ⟨based, kept⟩ := confined.kept (store.withFaults faults)
        have seen := sight_eq ended fun family => by
          rw [based]
          exact setName_mem_halves family one.base
        have contents := ended.contents
        rw [← based] at different contents
        obtain ⟨sights, last, after⟩ := ih different kept named' contents
        rw [based] at after
        simp only [together, own, List.filterMap_cons, Sum.getLeft?_inl, Option.map_some, alone]
        rw [← ended.state, ← seen]
        exact ⟨congrArg (_ :: ·) sights, last, after⟩
      · -- The other keeper only changes sets that the first one does not look at.
        have confined := deed.confined named'
        obtain ⟨based, kept⟩ := confined.kept (store.withFaults faults)
        have spared := (confined.spares (store.withFaults faults)).mono fun set =>
          not_mem_halves different
        rw [← based] at different
        exact ih different named kept (spared.trans agree)

end Keeper

open Keeper in
/-- Two keepers of different base names share no set, and each of them works as if it had
the store to itself. -/
theorem different_base_names_do_not_interfere (one other : Keeper) (store : Store)
    (different : one.base ≠ other.base) (named : one.Named) (named' : other.Named)
    (steps : List (Faults × (Deed ⊕ Deed))) :
    let (sights, last, rest, after) := together steps one other store
    let (sights', last', after') := alone (own steps) one store
    sights = sights' ∧ last = last' ∧
    (∀ family, after.addresses? (Family.setName family one.base) =
        after'.addresses? (Family.setName family one.base) ∧
      after.creations (Family.setName family one.base) =
        after'.creations (Family.setName family one.base)) ∧
    (∀ family family', Family.setName family one.base ≠ Family.setName family' other.base) ∧
    ∀ peers peers', last.peers? = some peers → rest.peers? = some peers' →
      ∀ family family' set, peers.backing.handle? family = some set →
        peers'.backing.handle? family' ≠ some set := by
  have kept := together_kept named named' steps store
  have agrees := together_agrees different named named' steps (.refl _ store.contents)
  generalize together steps one other store = ended at kept agrees
  generalize alone (own steps) one store = ended' at agrees
  obtain ⟨sights, last, rest, after⟩ := ended
  obtain ⟨sights', last', after'⟩ := ended'
  obtain ⟨⟨based, within⟩, based', within'⟩ := kept
  obtain ⟨seen, same, contents⟩ := agrees
  refine ⟨seen, same, ?_, ?_, ?_⟩
  · intro family
    obtain ⟨sets, creations⟩ := contents _ (setName_mem_halves family one.base)
    exact ⟨congrArg (Option.map _) sets, creations⟩
  · intro family family' names
    exact different (Family.setName_inj.mp names).2
  · intro peers peers' there there' family family' set handle handle'
    have inside := within peers there family set handle
    rw [based] at inside
    have inside' := within' peers' there' family' set handle'
    rw [based'] at inside'
    exact not_mem_halves different inside inside'

open Keeper in
/-- A rule, and a caller whose base name is the name of the IPv4 half of the rule's. -/
def neighbours : List (Faults × (Deed ⊕ Deed)) :=
  [({}, .inl (.work .ensure)), ({ failing := [.ensure] }, .inr (.ensure .dualStack)),
    ({}, .inr (.ensure .dualStack)), ({}, .inl (.work (.addPods [mappedPod]))),
    ({ blocked := [(.destroy, "ns1.pol1.ingress.0_v6")] }, .inl (.work .destroy)),
    ({ blocked := [(.destroy, "ns1.pol1.ingress.0_v6")] }, .inr (.change .destroy)),
    ({}, .inl (.change (.owners (.removeAll mappedPod.key)))), ({}, .inr (.ensure .ipv6Only))]

open Keeper in
theorem neighbours_do_not_interfere :
    let one := ofRule dualRule
    let other := ofSet "ns1.pol1.ingress.0_v4" none
    let (sights, last, rest, after) := together neighbours one other {}
    one.base ≠ other.base ∧ one.Named ∧ other.Named ∧
    last.peers?.isSome = true ∧ rest.peers?.isSome = true ∧
    sights.map (·.answer) = [.ok none, .ok none,
      .error (.destroy "ns1.pol1.ingress.0_v6" (.failure "ns1.pol1.ingress.0_v6" "blocked")),
      .error (.noFamilySet "ns1.pol1.ingress.0" (.v4 ⟨10, 0, 0, 1⟩))] ∧
    sights = (alone (own neighbours) one {}).1 ∧ last = (alone (own neighbours) one {}).2.1 ∧
    after.addresses? "ns1.pol1.ingress.0_v6" =
      (alone (own neighbours) one {}).2.2.addresses? "ns1.pol1.ingress.0_v6" := by
  have different : (ofRule dualRule).base ≠ (ofSet "ns1.pol1.ingress.0_v4" none).base := by
    decide +kernel
  have named : (ofRule dualRule).Named := fun peers there => (nomatch there)
  have named' : (ofSet "ns1.pol1.ingress.0_v4" none).Named := fun peers there => (nomatch there)
  obtain ⟨seen, same, sets, -, -⟩ :=
    different_base_names_do_not_interfere _ _ {} different named named' neighbours
  refine ⟨different, named, named', by decide +kernel, by decide +kernel, by decide +kernel, seen,
    same, ?_⟩
  exact (sets .v6).1

end PolicyAcl
