import PolicyAcl.Proofs.Coherence

/-! The sets that an operation reaches. It changes no other set, and it does not look at
any other either: on two stores that agree about the sets it reaches it ends alike. -/
namespace PolicyAcl

open Store (Call Contents)

namespace Store.Contents

variable {names : Set String} {contents other third after : Contents} {call : Call}

/-- There are the same sets of these names, and they were created as often. -/
def AgreeOn (names : Set String) (contents other : Contents) : Prop :=
  ∀ set ∈ names, contents.sets[set]? = other.sets[set]? ∧
    contents.creations.getD set 0 = other.creations.getD set 0

theorem AgreeOn.refl (names : Set String) (contents : Contents) : contents.AgreeOn names contents :=
  fun _ _ => ⟨rfl, rfl⟩

theorem AgreeOn.trans (one : contents.AgreeOn names other) (two : other.AgreeOn names third) :
    contents.AgreeOn names third := by
  intro set member
  exact ⟨(one set member).1.trans (two set member).1, (one set member).2.trans (two set member).2⟩

theorem AgreeOn.mono {fewer : Set String} (agree : contents.AgreeOn names other)
    (within : ∀ set ∈ fewer, set ∈ names) : contents.AgreeOn fewer other :=
  fun set member => agree set (within set member)

theorem ensure_creations (contents : Contents) (name set : String) :
    (contents.ensure name).creations.getD set 0 =
      contents.creations.getD set 0 + if set = name ∧ contents.sets[set]? = none then 1 else 0 := by
  unfold ensure
  by_cases same : set = name
  · subst same
    by_cases present : set ∈ contents.sets
    · have found : ¬(set = set ∧ contents.sets[set]? = none) := by simpa using present
      rw [if_pos present, if_neg found, Nat.add_zero]
    · have missing : contents.sets[set]? = none := Std.ExtTreeMap.getElem?_eq_none present
      rw [if_neg present, if_pos ⟨rfl, missing⟩, Std.ExtTreeMap.getD_insert_self]
  · have other : ¬(set = name ∧ contents.sets[set]? = none) := fun created => same created.1
    rw [if_neg other, Nat.add_zero]
    split
    next => rfl
    next => simp [Std.ExtTreeMap.getD_insert, Ne.symm same]

/-- Only an ensure of a set that does not exist counts as a creation. -/
theorem perform_creations_getD (h : contents.perform call = .ok after) (set : String) :
    after.creations.getD set 0 = contents.creations.getD set 0 +
      if call = .ensure set ∧ contents.sets[set]? = none then 1 else 0 := by
  cases call with
  | ensure name =>
      simp only [perform] at h
      split at h
      next => cases h
      next =>
        cases h
        rw [ensure_creations]
        simp only [Call.ensure.injEq, eq_comm (a := set)]
  | add name addresses => simp [update_creations h]
  | delete name addresses => simp [update_creations h]
  | destroy name =>
      cases h
      simp

theorem perform_spares (h : contents.perform call = .ok after) (outside : call.set ∉ names) :
    after.AgreeOn names contents := by
  intro set member
  have different : set ≠ call.set := by
    rintro rfl
    exact outside member
  rw [perform_sets h, if_neg different, perform_creations_getD h, if_neg]
  · exact ⟨rfl, rfl⟩
  · rintro ⟨rfl, -⟩
    exact different rfl

theorem perform_error?_agree (agree : contents.AgreeOn names other) (reached : call.set ∈ names) :
    error? (contents.perform call) = error? (other.perform call) := by
  have present : call.set ∈ contents.sets ↔ call.set ∈ other.sets := by
    simp only [Std.ExtTreeMap.mem_iff_isSome_getElem?, (agree call.set reached).1]
  cases call with
  | ensure name =>
      simp only [perform]
      split <;> rfl
  | add name addresses => rw [perform_error? (.inl rfl), perform_error? (.inl rfl), if_congr present rfl rfl]
  | delete name addresses => rw [perform_error? (.inr rfl), perform_error? (.inr rfl), if_congr present rfl rfl]
  | destroy name => rfl

theorem perform_agrees (agree : contents.AgreeOn names other) {after' : Contents}
    (one : contents.perform call = .ok after) (two : other.perform call = .ok after') :
    after.AgreeOn names after' := by
  intro set member
  obtain ⟨sets, creations⟩ := agree set member
  rw [perform_sets one, perform_sets two, perform_creations_getD one, perform_creations_getD two,
    sets, creations]
  exact ⟨rfl, rfl⟩

end Store.Contents

theorem Store.answer_agrees {names : Set String} {store other : Store} {call : Call}
    (faults : store.faults = other.faults) (agree : store.contents.AgreeOn names other.contents)
    (reached : call.set ∈ names) :
    (∃ cause, store.answer call = .error cause ∧ other.answer call = .error cause) ∨
    ∃ after after', store.answer call = .ok after ∧ other.answer call = .ok after' ∧
      after.AgreeOn names after' := by
  unfold answer
  rw [← faults]
  cases store.faults.refusal? call with
  | some cause => exact .inl ⟨cause, rfl, rfl⟩
  | none =>
      have same := Contents.perform_error?_agree agree reached
      cases one : store.contents.perform call with
      | error cause =>
          cases two : other.contents.perform call with
          | error cause' =>
              rw [one, two] at same
              obtain rfl : cause = cause' := Option.some.inj same
              exact .inl ⟨cause, rfl, rfl⟩
          | ok after' =>
              rw [one, two] at same
              cases same
      | ok after =>
          cases two : other.contents.perform call with
          | error cause' =>
              rw [one, two] at same
              cases same
          | ok after' => exact .inr ⟨after, after', rfl, rfl, Contents.perform_agrees agree one two⟩

section
variable {σ τ α β : Type} {names : Set String} {Inv : σ → Prop}

/-- Two outcomes that differ in nothing but sets of other names. -/
structure Outcome.AgreeOn (names : Set String) (one two : Outcome σ α) : Prop where
  answer : one.answer = two.answer
  state : one.state = two.state
  contents : one.store.contents.AgreeOn names two.store.contents

/-- Make another answer and another state of those that an operation ended with. -/
def Outcome.conclude (finish : Except PeerError α → σ → Except PeerError β × τ)
    (outcome : Outcome σ α) : Outcome τ β :=
  ⟨(finish outcome.answer outcome.state).1, (finish outcome.answer outcome.state).2, outcome.store⟩

/-- Work that does not look at sets of other names and does not change them, and that ends
in a state of an invariant. -/
structure Confined (names : Set String) (Inv : σ → Prop) (work : Store → Outcome σ α) : Prop where
  kept : ∀ store, Inv (work store).state
  agrees : ∀ store other, store.faults = other.faults →
    store.contents.AgreeOn names other.contents → (work store).AgreeOn names (work other)
  spares : ∀ store, (work store).store.contents.AgreeOn (Compl.compl names) store.contents

theorem Confined.idle (answer : Except PeerError α) {state : σ} (inv : Inv state) :
    Confined names Inv fun store => ⟨answer, state, store⟩ where
  kept _ := inv
  agrees _ _ _ agree := ⟨rfl, rfl, agree⟩
  spares store := .refl _ store.contents

theorem Confined.and {work : Store → Outcome σ α} (confined : Confined names Inv work)
    (Also : σ → Prop) (also : ∀ store, Also (work store).state) :
    Confined names (fun state => Inv state ∧ Also state) work where
  kept store := ⟨confined.kept store, also store⟩
  agrees := confined.agrees
  spares := confined.spares

theorem Confined.conclude {work : Store → Outcome σ α} (confined : Confined names Inv work)
    (finish : Except PeerError α → σ → Except PeerError β × τ) {Ends : τ → Prop}
    (ends : ∀ answer state, Inv state → Ends (finish answer state).2) :
    Confined names Ends fun store => (work store).conclude finish where
  kept store := ends _ _ (confined.kept store)
  agrees store other faults agree := by
    obtain ⟨answer, state, contents⟩ := confined.agrees store other faults agree
    refine ⟨?_, ?_, contents⟩
    · simp only [Outcome.conclude, answer, state]
    · simp only [Outcome.conclude, answer, state]
  spares := confined.spares

namespace Intent

/-- The call, if there is one, names one of these sets. -/
def Within (names : Set String) : Intent σ → Prop
  | .submit call _ _ => call.set ∈ names
  | _ => True

theorem carryOut_confined {intent : Intent σ} {state : σ} (within : intent.Within names)
    (inv : Inv state)
    (keeps : ∀ contents next after, intent.perform contents = .ok (next, after) → Inv next) :
    Confined names Inv (intent.carryOut state) where
  kept store := carryOut_preserves (fun next _ => Inv next) inv fun next after => keeps _ next after
  agrees store other faults agree := by
    cases intent with
    | quiet next => exact ⟨rfl, rfl, agree⟩
    | refuse error => exact ⟨rfl, rfl, agree⟩
    | submit call next complain =>
        rcases Store.answer_agrees faults agree within with
          ⟨cause, one, two⟩ | ⟨after, after', one, two, agree'⟩
        · rw [carryOut_of_error state one, carryOut_of_error state two]
          exact ⟨rfl, rfl, agree⟩
        · rw [carryOut_of_ok state one, carryOut_of_ok state two]
          exact ⟨rfl, rfl, agree'⟩
  spares store := by
    cases intent with
    | quiet next => exact .refl _ _
    | refuse error => exact .refl _ _
    | submit call next complain =>
        cases answered : store.answer call with
        | error cause =>
            rw [carryOut_of_error state answered]
            exact .refl _ _
        | ok after =>
            rw [carryOut_of_ok state answered]
            exact Contents.perform_spares (Store.answer_ok_perform answered) (not_not.mpr within)

theorem each_confined {plan : α → σ → Intent σ} {items : List α} (Inv : σ → Prop)
    (within : ∀ item ∈ items, ∀ state, Inv state → (plan item state).Within names)
    (keeps : ∀ item ∈ items, ∀ state contents next after, Inv state →
      (plan item state).perform contents = .ok (next, after) → Inv next)
    {state : σ} (inv : Inv state) : Confined names Inv (each plan items state) := by
  induction items generalizing state with
  | nil => exact .idle _ inv
  | cons item items ih =>
      have first : Confined names Inv ((plan item state).carryOut state) :=
        carryOut_confined (within item List.mem_cons_self state inv) inv
          fun contents next after => keeps item List.mem_cons_self state contents next after inv
      have rest {state : σ} (inv : Inv state) : Confined names Inv (each plan items state) :=
        ih (fun other member => within other (List.mem_cons_of_mem item member))
          (fun other member => keeps other (List.mem_cons_of_mem item member)) inv
      constructor
      · intro store
        have kept := first.kept store
        rw [each]
        generalize (plan item state).carryOut state store = one at kept
        obtain ⟨answer, reached, after⟩ := one
        cases answer with
        | ok called => exact (rest kept).kept after
        | error error => exact kept
      · intro store other faults agree
        -- The rest of the list is worked through under the same faults on both stores.
        have same : ((plan item state).carryOut state store).store.faults =
            ((plan item state).carryOut state other).store.faults := by
          rw [carryOut_faults, carryOut_faults, faults]
        have kept := first.kept store
        have agrees := first.agrees store other faults agree
        rw [each, each]
        generalize (plan item state).carryOut state store = one at agrees kept same
        generalize (plan item state).carryOut state other = two at agrees same
        obtain ⟨answer, reached, after⟩ := one
        obtain ⟨answer', reached', after'⟩ := two
        obtain ⟨rfl, rfl, contents⟩ := agrees
        cases answer with
        | ok called => exact (rest kept).agrees after after' same contents
        | error error => exact ⟨rfl, rfl, contents⟩
      · intro store
        have spared := first.spares store
        have kept := first.kept store
        rw [each]
        generalize (plan item state).carryOut state store = one at spared kept
        obtain ⟨answer, reached, after⟩ := one
        cases answer with
        | ok called => exact ((rest kept).spares after).trans spared
        | error error => exact spared

end Intent

end

namespace PeerSet

variable {names : Set String} {peers next : PeerSet}

/-- All backing sets have one of these names. -/
def Within (names : Set String) (peers : PeerSet) : Prop :=
  ∀ family set, peers.backing.handle? family = some set → set ∈ names

theorem addPlan_within {entry : Address × PodKey} (within : peers.Within names) :
    (addPlan entry peers).Within names := by
  obtain ⟨address, pod⟩ := entry
  cases planned : addPlan (address, pod) peers with
  | quiet => trivial
  | refuse => trivial
  | submit call target complain =>
      obtain ⟨set, -, handle, rfl, -⟩ := addPlan_submit planned
      exact within address.family set handle

theorem removePlan_within {pod : PodKey} {address : Address} (within : peers.Within names) :
    (removePlan pod address peers).Within names := by
  cases planned : removePlan pod address peers with
  | quiet => trivial
  | refuse => trivial
  | submit call target complain =>
      obtain ⟨owners, set, -, -, handle, rfl, -⟩ := removePlan_submit planned
      exact within address.family set handle

theorem destroyPlan_within {family : Family} (within : peers.Within names) :
    (destroyPlan family peers).Within names := by
  cases planned : destroyPlan family peers with
  | quiet => trivial
  | refuse => trivial
  | submit call target complain =>
      obtain ⟨set, handle, rfl, -⟩ := destroyPlan_submit planned
      exact within family set handle

theorem Within.of_backing (within : peers.Within names) (same : next.backing = peers.backing) :
    next.Within names := by
  intro family set handle
  rw [same] at handle
  exact within family set handle

theorem addEach_confined (within : peers.Within names) (entries : List (Address × PodKey)) :
    Confined names (Within names) (Intent.each addPlan entries peers) :=
  Intent.each_confined (Within names) (fun _ _ _ kept => addPlan_within kept)
    (fun _ _ _ _ _ _ kept performed => kept.of_backing (addPlan_backing performed)) within

theorem removeAll_confined (within : peers.Within names) (pod : PodKey) :
    Confined names (Within names) (peers.removeAll pod) := by
  have same : peers.removeAll pod = Intent.each (removePlan pod) (peers.ownedBy pod) peers :=
    funext fun store => removeEach_eq pod _ peers store
  rw [same]
  refine Intent.each_confined (Within names) (fun _ _ _ kept => removePlan_within kept) ?_ within
  exact fun _ _ _ _ _ _ kept performed => kept.of_backing (removePlan_backing performed)

theorem destroy_confined (within : peers.Within names) :
    Confined names (Within names) peers.destroy := by
  have same : peers.destroy = Intent.each destroyPlan [.v4, .v6] peers :=
    funext fun store => destroy_eq peers store
  rw [same]
  refine Intent.each_confined (Within names) (fun _ _ _ kept => destroyPlan_within kept) ?_ within
  intro family _ peers contents next after kept performed other set handle
  exact kept other set (destroyPlan_handles performed handle)

theorem Operation.confined (operation : Operation) (within : peers.Within names) :
    Confined names (Within names) (operation.apply peers) := by
  cases operation with
  | owners change =>
      cases change with
      | add address pod =>
          have work : Confined names (Within names) (peers.addOwner address pod) := by
            rw [funext (addOwner_eq address pod peers)]
            exact Intent.carryOut_confined (addPlan_within within) within
              fun _ _ _ performed => within.of_backing (addPlan_backing performed)
          exact work.conclude (fun answer next => (answer.map some, next)) fun _ _ kept => kept
      | remove address pod =>
          have work : Confined names (Within names) (peers.removeOwner address pod) := by
            rw [funext (removeOwner_eq address pod peers)]
            exact Intent.carryOut_confined (removePlan_within within) within
              fun _ _ _ performed => within.of_backing (removePlan_backing performed)
          exact work.conclude (fun answer next => (answer.map some, next)) fun _ _ kept => kept
      | removeAll pod =>
          exact (removeAll_confined within pod).conclude
            (fun answer next => (answer.map fun _ => none, next)) fun _ _ kept => kept
  | destroy =>
      exact (destroy_confined within).conclude
        (fun answer next => (answer.map fun _ => none, next)) fun _ _ kept => kept

variable {name : String} {families : Families}

/-- Ensure a peer set in the place of the current one, which stays if that fails. -/
def renew (name : String) (families : Families) (current : Option PeerSet) (store : Store) :
    Outcome (Option PeerSet) Unit :=
  match PeerSet.ensure name families store with
  | (.ok peers, store) => ⟨.ok (), some peers, store⟩
  | (.error error, store) => ⟨.error error, current, store⟩

theorem renew_eq (name : String) (families : Families) (current : Option PeerSet) (store : Store) :
    renew name families current store =
      (Intent.each (ensurePlan name) families.enabled {} store).conclude fun answer backing =>
        (answer, if answer = .ok () then some { name, backing } else current) := by
  rw [renew, PeerSet.ensure, ensureEach_eq]
  cases Intent.each (ensurePlan name) families.enabled {} store with
  | mk answer backing after => cases answer <;> rfl

theorem renew_confined {current : Option PeerSet}
    (halves : ∀ family, families.isEnabled family = true → family.setName name ∈ names)
    (within : ∀ peers, current = some peers → peers.Within names) :
    Confined names (fun current => ∀ peers, current = some peers → peers.Within names)
      (renew name families current) := by
  have unbacked : ({ name } : PeerSet).Within names := by
    intro family set handle
    cases family <;> cases handle
  have ensuring : Confined names (fun backing => ({ name, backing } : PeerSet).Within names)
      (Intent.each (ensurePlan name) families.enabled {}) := by
    refine Intent.each_confined (fun backing => ({ name, backing } : PeerSet).Within names)
      ?_ ?_ unbacked
    · intro family listed _ _
      exact halves family (Families.mem_enabled.mp listed)
    · intro family listed backing contents reached after within performed other set handle
      rw [ensurePlan_next performed, Backing.handle?_put] at handle
      split at handle
      next =>
        cases handle
        exact halves family (Families.mem_enabled.mp listed)
      next => exact within other set handle
  rw [funext (renew_eq name families current)]
  refine ensuring.conclude _ ?_
  intro answer backing kept peers there
  simp only at there
  split at there
  next =>
    cases there
    exact kept
  next => exact within peers there

end PeerSet

namespace Rule

variable {names : Set String} {rule : Rule}

/-- The halves of the enabled families and all backing sets have one of these names. -/
structure Within (names : Set String) (rule : Rule) : Prop where
  halves : ∀ family, rule.families.isEnabled family = true →
    family.setName rule.id.setName ∈ names
  backing : ∀ peers, rule.peers = some peers → peers.Within names

theorem Within.with_peers (within : rule.Within names) {current : Option PeerSet}
    (kept : ∀ peers, current = some peers → peers.Within names) :
    { rule with peers := current }.Within names :=
  ⟨within.halves, kept⟩

theorem onPeers_confined {work : PeerSet → Store → Outcome PeerSet Unit} (within : rule.Within names)
    (confined : ∀ peers, peers.Within names → Confined names (PeerSet.Within names) (work peers)) :
    Confined names (Within names) (rule.onPeers work) := by
  unfold onPeers
  cases found : rule.peers with
  | none => exact .idle _ within
  | some peers =>
      refine (confined peers (within.backing peers found)).conclude
        (fun answer reached => (answer, { rule with peers := some reached })) ?_
      exact fun answer reached kept => within.with_peers fun peers there => Option.some.inj there ▸ kept

theorem ensurePeers_eq_renew (missing : rule.peers = none) (store : Store) :
    rule.ensurePeers store =
      (PeerSet.renew rule.id.setName rule.families none store).conclude fun answer current =>
        (answer, { rule with peers := current }) := by
  have same : { rule with peers := none } = rule := by rw [← missing]
  unfold ensurePeers PeerSet.renew
  rw [missing]
  cases PeerSet.ensure rule.id.setName rule.families store with
  | mk answer after =>
      cases answer with
      | ok peers => rfl
      | error error => simp only [Outcome.conclude, same]

theorem ensurePeers_confined (within : rule.Within names) :
    Confined names (Within names) rule.ensurePeers := by
  cases found : rule.peers with
  | some peers =>
      have same : rule.ensurePeers = fun store => ⟨.ok (), rule, store⟩ := by
        funext store
        simp only [ensurePeers, found]
      rw [same]
      exact .idle _ within
  | none =>
      have unset (peers : PeerSet) (there : none = some peers) : peers.Within names := nomatch there
      rw [funext (ensurePeers_eq_renew found)]
      refine (PeerSet.renew_confined within.halves unset).conclude _ ?_
      exact fun answer current kept => within.with_peers kept

theorem destroy_confined (within : rule.Within names) :
    Confined names (Within names) rule.destroy := by
  cases found : rule.peers with
  | none =>
      have same : rule.destroy = fun store => ⟨.ok (), rule, store⟩ := by
        funext store
        simp only [destroy, found]
      rw [same]
      exact .idle _ within
  | some peers =>
      have same : rule.destroy = fun store => (peers.destroy store).conclude fun answer reached =>
          (answer, { rule with peers := if answer = .ok () then none else some reached }) := by
        funext store
        simp only [destroy, found]
        cases peers.destroy store with
        | mk answer reached after => cases answer <;> rfl
      rw [same]
      refine (PeerSet.destroy_confined (within.backing peers found)).conclude _ ?_
      intro answer reached kept
      refine within.with_peers ?_
      intro other there
      split at there
      next => cases there
      next => exact Option.some.inj there ▸ kept

theorem Operation.confined (operation : Operation) (within : rule.Within names) :
    Confined names (Within names) (operation.apply rule) := by
  cases operation with
  | ensure => exact ensurePeers_confined within
  | addPods pods =>
      refine onPeers_confined within ?_
      intro peers backing
      rw [funext (addEach_eq rule.families pods peers)]
      exact PeerSet.addEach_confined backing _
  | deletePod pod =>
      exact onPeers_confined within fun peers backing => PeerSet.removeAll_confined backing pod.key
  | destroy => exact destroy_confined within

/-- An operation leaves all but the peer set as it was. -/
theorem Operation.apply_state (operation : Operation) (rule : Rule) (store : Store) :
    ∃ peers, (operation.apply rule store).state = { rule with peers } := by
  have idle : rule = { rule with peers := rule.peers } := rfl
  have onPeers (work : PeerSet → Store → Outcome PeerSet Unit) :
      ∃ peers, (rule.onPeers work store).state = { rule with peers } := by
    cases ended : rule.onPeers work store with
    | mk answer next after =>
        rcases onPeers_cases ended with ⟨-, -, rfl, -⟩ | ⟨peers, reached, -, -, rfl⟩
        · exact ⟨_, idle⟩
        · exact ⟨_, rfl⟩
  cases operation with
  | ensure =>
      cases ended : rule.ensurePeers store with
      | mk answer next after =>
          simp only [Operation.apply, ended]
          rcases ensurePeers_cases ended with
            ⟨-, -, rfl, -⟩ | ⟨peers, -, -, -, rfl⟩ | ⟨error, -, -, -, rfl⟩
          · exact ⟨_, idle⟩
          · exact ⟨_, rfl⟩
          · exact ⟨_, idle⟩
  | addPods pods => exact onPeers _
  | deletePod pod => exact onPeers _
  | destroy =>
      cases ended : rule.destroy store with
      | mk answer next after =>
          simp only [Operation.apply, ended]
          rcases destroy_cases ended with
            ⟨-, -, rfl, -⟩ | ⟨peers, reached, -, -, -, rfl⟩ | ⟨error, peers, reached, -, -, -, rfl⟩
          · exact ⟨_, idle⟩
          · exact ⟨_, rfl⟩
          · exact ⟨_, rfl⟩

section
variable {Q : PeerSet → Prop} {store : Store} (holds : ∀ peers, rule.peers = some peers → Q peers)
include holds

/-- What holds of the peer set of a rule still holds of it if the work on it keeps it. -/
theorem onPeers_keeps {work : PeerSet → Store → Outcome PeerSet Unit}
    (keeps : ∀ peers, Q peers → Q (work peers store).state) :
    ∀ peers, (rule.onPeers work store).state.peers = some peers → Q peers := by
  intro reached there
  cases ended : rule.onPeers work store with
  | mk answer next after =>
      rw [ended] at there
      rcases onPeers_cases ended with ⟨-, -, rfl, -⟩ | ⟨peers, left, some, worked, rfl⟩
      · exact holds reached there
      · cases there
        have kept := keeps peers (holds peers some)
        rwa [worked] at kept

theorem ensurePeers_keeps (starts : ∀ peers after,
      PeerSet.ensure rule.id.setName rule.families store = (.ok peers, after) → Q peers) :
    ∀ peers, (rule.ensurePeers store).state.peers = some peers → Q peers := by
  intro reached there
  cases ended : rule.ensurePeers store with
  | mk answer next after =>
      rw [ended] at there
      rcases ensurePeers_cases ended with
        ⟨-, -, rfl, -⟩ | ⟨peers, -, -, ensured, rfl⟩ | ⟨error, -, -, -, rfl⟩
      · exact holds reached there
      · cases there
        exact starts _ _ ensured
      · exact holds reached there

theorem destroy_keeps (keeps : ∀ peers, Q peers → Q (peers.destroy store).state) :
    ∀ peers, (rule.destroy store).state.peers = some peers → Q peers := by
  intro reached there
  cases ended : rule.destroy store with
  | mk answer next after =>
      rw [ended] at there
      rcases destroy_cases ended with
        ⟨-, -, rfl, -⟩ | ⟨peers, -, -, -, -, rfl⟩ | ⟨error, peers, left, some, -, worked, rfl⟩
      · exact holds reached there
      · cases there
      · cases there
        have kept := keeps peers (holds peers some)
        rwa [worked] at kept

end

end Rule

end PolicyAcl
