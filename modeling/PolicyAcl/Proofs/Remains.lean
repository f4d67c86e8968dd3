import PolicyAcl.Proofs.Bookkeeping
import PolicyAcl.Proofs.Reach

/-! What a destroyed rule leaves behind. It is as good as new, and its sets are gone. The
one set that may stay is an empty IPv4 half which an ensure created before it stopped at
the IPv6 half: no peer set ever took it over, so there is nobody to destroy it. -/
namespace PolicyAcl

open Store (Contents)

namespace PeerSet

variable {base : String} {families : Families} {contents after : Contents}

theorem performEach_ensure_halves {items : List Family} {backing reached : Backing}
    (performed : Intent.performEach (ensurePlan base) items backing contents =
      .ok (reached, after)) (family : Family) :
    after.half base family =
      if family ∈ items then some ((contents.half base family).getD ∅)
      else contents.half base family := by
  induction items generalizing backing contents with
  | nil =>
      cases performed
      rfl
  | cons item items ih =>
      rw [Intent.performEach] at performed
      split at performed
      next middle between first =>
        rw [ensurePlan, Intent.perform_submit] at first
        rw [ih performed, Contents.half_perform first.2 rfl]
        by_cases same : family = item
        · subst same
          simp [Store.Call.effect]
        · simp [same]
      next => cases performed

/-- An ensure that fails has stopped at the half of an enabled family. The IPv4 half is
there if it stopped at the IPv6 half and both are enabled, and nothing else has changed. -/
theorem ensure_stops {store last : Store} {error : PeerError}
    (failed : PeerSet.ensure base families store = (.error error, last)) :
    ∃ family cause, error = .ensure (Family.setName family base) cause ∧
      ∀ other, last.contents.half base other =
        if other = .v4 ∧ family = .v6 ∧ families.isEnabled .v4 = true then
          some ((store.contents.half base other).getD ∅)
        else store.contents.half base other := by
  obtain ⟨backing, worked⟩ := ensure_error failed
  obtain ⟨done, family, rest, reached, between, split, performed, stuck⟩ := Intent.each_error worked
  have halves := performEach_ensure_halves performed
  have before (other : Family) : other ∈ done ↔
      other = .v4 ∧ family = .v6 ∧ families.isEnabled .v4 = true := by
    cases v4 : families.isEnabled .v4 <;> cases v6 : families.isEnabled .v6 <;>
      rcases done with - | ⟨first, - | ⟨second, done⟩⟩ <;>
      simp [Families.enabled, v4, v6] at split
    · simp
    · simp [← split.1]
    · simp [← split.1]
    · simp [← split.1, ← split.2.1]
  rw [ensurePlan] at stuck
  cases answered : between.answer (.ensure (family.setName base)) with
  | ok contents =>
      rw [Intent.carryOut_of_ok reached answered] at stuck
      cases stuck
  | error cause =>
      rw [Intent.carryOut_of_error reached answered] at stuck
      cases stuck
      refine ⟨family, cause, rfl, ?_⟩
      intro other
      simp only [← before]
      exact halves other

end PeerSet

namespace Rule

/-- What the ensures of a session answered, the latest first. -/
def ensureAnswers : List (Event Action) → Rule × Store → List (Except PeerError Unit) →
    List (Except PeerError Unit)
  | [], _, answers => answers
  | event :: events, (rule, store), answers =>
    ensureAnswers events (event.apply Action.apply (rule, store)) <|
      match event with
      | .act (.work .ensure) => (rule.ensurePeers store).answer :: answers
      | _ => answers

/-- Since the latest ensure that succeeded, one has stopped at the IPv6 half. -/
def Abandoned (base : String) : List (Except PeerError Unit) → Prop
  | [] => False
  | .ok () :: _ => False
  | .error error :: earlier =>
    (∃ cause, error = .ensure (Family.setName .v6 base) cause) ∨ Abandoned base earlier

theorem not_abandoned_after_ok (base : String) (answers : List (Except PeerError Unit)) :
    ¬Abandoned base (.ok () :: answers) := fun abandoned => abandoned

/-- The rule after the edits of a session alone. -/
def rebuilt : List (Event Action) → Rule → Rule
  | [], rule => rule
  | .act (.edit change) :: events, rule => rebuilt events (change.apply rule)
  | _ :: events, rule => rebuilt events rule

/-- Without a peer set, a rule has no halves in the store but an abandoned one. -/
structure Remains (base : String) (families : Families) (answers : List (Except PeerError Unit))
    (rule : Rule) (contents : Contents) : Prop where
  coherent : rule.Coherent base families contents
  disabled : ∀ family, families.isEnabled family = false → contents.half base family = none
  gone : rule.peers = none → contents.half base .v6 = none
  left : rule.peers = none →
    (contents.half base .v4 ≠ none ↔ families.isEnabled .v4 = true ∧ Abandoned base answers)
  taken : rule.peers ≠ none → ¬Abandoned base answers

variable {base : String} {families : Families} {rule : Rule} {store : Store}
  {answers : List (Except PeerError Unit)}

/-- An operation does not change the half of a family that is not enabled. -/
theorem Coherent.disabled_half (h : rule.Coherent base families store.contents)
    (operation : Operation) {family : Family} (disabled : families.isEnabled family = false) :
    (operation.apply rule store).store.contents.half base family =
      store.contents.half base family := by
  obtain ⟨rfl, rfl, -, present⟩ := h
  have within : rule.Within {set | ∃ family, rule.families.isEnabled family = true ∧
      set = Family.setName family rule.id.setName} := by
    refine ⟨fun family enabled => ⟨family, enabled, rfl⟩, ?_⟩
    intro peers some family set handle
    have coherent := present peers some
    exact ⟨family, coherent.enabled family (by simp [handle]), coherent.named family set handle⟩
  refine ((operation.confined within).spares store _ ?_).1
  rintro ⟨other, enabled, same⟩
  rw [(Family.setName_inj.mp same).1, enabled] at disabled
  cases disabled

theorem Remains.disabled_after (h : rule.Remains base families answers store.contents)
    (operation : Operation) (family : Family) (off : families.isEnabled family = false) :
    (operation.apply rule store).store.contents.half base family = none :=
  (h.coherent.disabled_half operation off).trans (h.disabled family off)

/-- A rule with a peer set has its halves in the store, and none of them is abandoned. -/
theorem Remains.of_held {peers : PeerSet} {contents : Contents} (held : rule.peers = some peers)
    (coherent : rule.Coherent base families contents)
    (disabled : ∀ family, families.isEnabled family = false → contents.half base family = none)
    (taken : ¬Abandoned base answers) : rule.Remains base families answers contents := by
  have there : rule.peers ≠ none := by simp [held]
  exact ⟨coherent, disabled, fun none => absurd none there, fun none => absurd none there,
    fun _ => taken⟩

theorem Remains.ensure (h : rule.Remains base families answers store.contents) :
    (rule.ensurePeers store).state.Remains base families ((rule.ensurePeers store).answer :: answers)
      (rule.ensurePeers store).store.contents := by
  have coherent := h.coherent.ensure
  have disabled := h.disabled_after .ensure
  simp only [Operation.apply] at disabled
  cases ended : rule.ensurePeers store with
  | mk answer next after =>
      rw [ended] at coherent disabled
      rcases ensurePeers_cases ended with
        ⟨some, rfl, rfl, rfl⟩ | ⟨peers, none, rfl, -, rfl⟩ | ⟨error, none, rfl, failed, rfl⟩
      · obtain ⟨peers, held⟩ := Option.ne_none_iff_exists'.mp some
        exact .of_held held coherent disabled (not_abandoned_after_ok base answers)
      · exact .of_held rfl coherent disabled (not_abandoned_after_ok base answers)
      · rw [h.coherent.name, h.coherent.enabled] at failed
        obtain ⟨family, cause, rfl, halves⟩ := PeerSet.ensure_stops failed
        refine ⟨coherent, disabled, ?_, ?_, fun some => absurd none some⟩
        · intro _
          rw [halves]
          simpa using h.gone none
        · intro _
          rw [halves, Abandoned]
          have earlier := h.left none
          cases family with
          | v4 => simpa [Family.setName_inj] using earlier
          | v6 =>
              cases enabled : families.isEnabled .v4 with
              | false => simp [h.disabled .v4 enabled]
              | true => simp

theorem Remains.onPeers (h : rule.Remains base families answers store.contents)
    (operation : Operation) {work : PeerSet → Store → Outcome PeerSet Unit}
    (same : operation.apply rule store = rule.onPeers work store) :
    (operation.apply rule store).state.Remains base families answers
      (operation.apply rule store).store.contents := by
  have coherent := h.coherent.apply (.work operation)
  have disabled := h.disabled_after operation
  simp only [Action.apply] at coherent
  rw [same] at coherent disabled ⊢
  cases ended : rule.onPeers work store with
  | mk answer next after =>
      rw [ended] at coherent disabled
      rcases onPeers_cases ended with ⟨none, -, rfl, rfl⟩ | ⟨peers, reached, some, -, rfl⟩
      · exact h
      · exact .of_held rfl coherent disabled (h.taken (by simp [some]))

theorem Remains.destroy (h : rule.Remains base families answers store.contents) :
    (rule.destroy store).state.Remains base families answers
      (rule.destroy store).store.contents := by
  have coherent := h.coherent.destroy
  have disabled := h.disabled_after .destroy
  simp only [Operation.apply] at disabled
  cases ended : rule.destroy store with
  | mk answer next after =>
      rw [ended] at coherent disabled
      rcases destroy_cases ended with
        ⟨none, rfl, rfl, rfl⟩ | ⟨peers, reached, some, rfl, worked, rfl⟩ |
          ⟨error, peers, reached, some, rfl, worked, rfl⟩
      · exact h
      · -- All handles are gone, and with them the halves of the enabled families.
        have emptied := (h.coherent.present peers some).destroyAll
        have released := PeerSet.destroy_releases (by rw [worked])
        rw [worked] at emptied released
        have absent (family : Family) : after.contents.half base family = none := by
          cases enabled : families.isEnabled family with
          | false => exact disabled family enabled
          | true => exact emptied.released family (released family) enabled
        have taken := h.taken (by simp [some])
        refine ⟨coherent, disabled, fun _ => absent .v6, ?_, fun there => absurd rfl there⟩
        simp [absent, taken]
      · exact .of_held rfl coherent disabled (h.taken (by simp [some]))

theorem Remains.edit (h : rule.Remains base families answers store.contents) (change : Edit) :
    (change.apply rule).Remains base families answers store.contents := by
  have coherent := h.coherent.apply (.edit change)
  cases change <;> exact ⟨coherent, h.disabled, h.gone, h.left, h.taken⟩

theorem Remains.run (h : rule.Remains base families answers store.contents)
    {events : List (Event Action)} (sole : ∀ event ∈ events, event.Spares base) :
    (Event.run Action.apply events (rule, store)).1.Remains base families
      (ensureAnswers events (rule, store) answers)
      (Event.run Action.apply events (rule, store)).2.contents := by
  induction events generalizing rule store answers with
  | nil => exact h
  | cons event events ih =>
      have later : ∀ event ∈ events, event.Spares base := fun event member =>
        sole event (List.mem_cons_of_mem _ member)
      cases event with
      | act action =>
          cases action with
          | work operation =>
              cases operation with
              | ensure => exact ih h.ensure later
              | addPods pods => exact ih (h.onPeers (.addPods pods) rfl) later
              | deletePod pod => exact ih (h.onPeers (.deletePod pod) rfl) later
              | destroy => exact ih h.destroy later
          | edit change => exact ih (h.edit change) later
      | failOn op => exact ih h later
      | block op set => exact ih h later
      | clearFaults => exact ih h later
      | foreign call =>
          have same := store.submit_half_other (sole _ List.mem_cons_self)
          refine ih ⟨h.coherent.of_half same, ?_, ?_, ?_, h.taken⟩ later
          · rw [same]
            exact h.disabled
          · rw [same]
            exact h.gone
          · rw [same]
            exact h.left

/-- Whatever an ensure finds, the peer set that it makes has no owners and empty sets. -/
theorem Remains.restart (h : rule.Remains base families answers store.contents)
    (missing : rule.peers = none) {next : Rule} {after : Store}
    (ended : rule.ensurePeers store = ⟨.ok (), next, after⟩) :
    (∃ peers, next.peers = some peers ∧ peers.owners = ∅) ∧
    ∀ family, after.contents.half base family =
      if families.isEnabled family = true then some ∅ else none := by
  have remains := h.ensure
  rw [ended] at remains
  rcases ensurePeers_cases ended with
    ⟨some, -⟩ | ⟨peers, -, -, ensured, rfl⟩ | ⟨error, -, failed, -⟩
  · exact absurd missing some
  · obtain ⟨-, unowned, backs⟩ := PeerSet.ensure_backs ensured
    rw [h.coherent.enabled] at backs
    have empty (family : Family) : peers.members family = ∅ := by
      simp [PeerSet.members, PeerSet.addresses, unowned]
    refine ⟨⟨peers, rfl, unowned⟩, ?_⟩
    intro family
    cases enabled : families.isEnabled family with
    | false => exact remains.disabled family enabled
    | true =>
        have backed := (remains.coherent.present peers rfl).backed family (backs family enabled)
        rw [backed, empty]
        rfl
  · cases failed

theorem Remains.fresh (missing : rule.peers = none)
    (absent : ∀ family, store.contents.half rule.id.setName family = none) :
    rule.Remains rule.id.setName rule.families [] store.contents := by
  have coherent : rule.Coherent rule.id.setName rule.families store.contents := by
    refine ⟨rfl, rfl, fun _ family => .inl (absent family), ?_⟩
    intro peers some
    rw [missing] at some
    cases some
  refine ⟨coherent, fun family _ => absent family, fun _ => absent .v6, ?_, ?_⟩
  · simp [absent, Abandoned]
  · exact fun some => absurd missing some

/-- A destroy that succeeds leaves the IPv4 half only to a rule that had none to destroy,
and that half is empty. -/
theorem Remains.destroyed (h : rule.Remains base families answers store.contents)
    {next : Rule} {after : Store} (ended : rule.destroy store = ⟨.ok (), next, after⟩) :
    let abandoned := rule.peers = none ∧ families.isEnabled .v4 = true ∧ Abandoned base answers
    after.contents.half base .v6 = none ∧
    (¬abandoned → after.contents.half base .v4 = none) ∧
    (abandoned → after.contents.half base .v4 = some ∅) := by
  have missing : next.peers = none := by rw [destroyed_state ended]
  have left := h.destroy
  rw [ended] at left
  refine ⟨left.gone missing, ?_, ?_⟩
  · intro kept
    by_contra there
    obtain ⟨enabled, abandoned⟩ := (left.left missing).mp there
    by_cases none : rule.peers = none
    · exact kept ⟨none, enabled, abandoned⟩
    · exact h.taken none abandoned
  · intro abandoned
    have there := (left.left missing).mpr abandoned.2
    exact (left.coherent.absent missing .v4).resolve_left there

/-- Only edits change a rule for good: all but its peer set is as if it were new. -/
theorem run_rebuilt (events : List (Event Action)) (rule : Rule) (store : Store) :
    { (Event.run Action.apply events (rule, store)).1 with peers := none } =
      rebuilt events { rule with peers := none } := by
  induction events generalizing rule store with
  | nil => rfl
  | cons event events ih =>
      cases event with
      | act action =>
          cases action with
          | work operation =>
              obtain ⟨peers, same⟩ := operation.apply_state rule store
              refine (ih _ _).trans (congrArg (rebuilt events) ?_)
              rw [same]
          | edit change =>
              refine (ih _ _).trans (congrArg (rebuilt events) ?_)
              cases change <;> rfl
      | failOn op => exact ih rule _
      | block op set => exact ih rule _
      | clearFaults => exact ih rule _
      | foreign call => exact ih rule _

end Rule

/-- A rule whose destroy succeeded has no peer set and is as good as new, and it starts
anew with no owners and empty sets. Its halves are gone, unless it had no peer set to
destroy: then the IPv4 half stays if an ensure has abandoned it, and it is empty. -/
theorem destroyed_rule_leaves_abandoned_half_only (rule : Rule) (store : Store)
    (fresh : rule.peers = none)
    (absent : ∀ family, store.contents.half rule.id.setName family = none)
    (events : List (Event Rule.Action)) (sole : ∀ event ∈ events, event.Spares rule.id.setName) :
    let base := rule.id.setName
    let (reached, now) := Event.run Rule.Action.apply events (rule, store)
    let abandoned := reached.peers = none ∧ rule.families.isEnabled .v4 = true ∧
      Rule.Abandoned base (Rule.ensureAnswers events (rule, store) [])
    ∀ destroyed after, reached.destroy now = ⟨.ok (), destroyed, after⟩ →
      destroyed = { reached with peers := none } ∧ destroyed = Rule.rebuilt events rule ∧
      after.addresses? (Family.setName .v6 base) = none ∧
      (¬abandoned → after.addresses? (Family.setName .v4 base) = none) ∧
      (abandoned → after.addresses? (Family.setName .v4 base) = some []) ∧
      ∀ later : List (Event Rule.Action), (∀ event ∈ later, event.Spares base) →
        let (resumed, then') := Event.run Rule.Action.apply later (destroyed, after)
        resumed.peers = none → ∀ next last, resumed.ensurePeers then' = ⟨.ok (), next, last⟩ →
          (∃ peers, next.peers = some peers ∧ peers.owners = ∅) ∧
          ∀ family, last.addresses? (Family.setName family base) =
            if rule.families.isEnabled family = true then some [] else none := by
  have remains := (Rule.Remains.fresh fresh absent).run sole
  have rebuilt := Rule.run_rebuilt events rule store
  generalize Rule.ensureAnswers events (rule, store) [] = answers at remains
  generalize Event.run Rule.Action.apply events (rule, store) = ended at remains rebuilt
  obtain ⟨reached, now⟩ := ended
  intro base destroyed after ended
  have same := Rule.destroyed_state ended
  have unedited : { rule with peers := none } = rule := by rw [← fresh]
  obtain ⟨gone, cleared, left⟩ := remains.destroyed ended
  have after_destroy := remains.destroy
  rw [ended] at after_destroy
  refine ⟨same, ?_, congrArg (Option.map _) gone, ?_, ?_, ?_⟩
  · rw [same, rebuilt, unedited]
  · intro kept
    exact congrArg (Option.map _) (cleared kept)
  · intro abandoned
    exact congrArg (Option.map _) (left abandoned)
  · intro later sole' missing next last ensured
    obtain ⟨peers, halves⟩ := (after_destroy.run sole').restart missing ensured
    refine ⟨peers, ?_⟩
    intro family
    have half : last.addresses? (family.setName rule.id.setName) = Option.map _ _ :=
      congrArg (Option.map _) (halves family)
    rw [half]
    split <;> rfl

/-- The ensure creates the IPv4 half and is kept from the IPv6 half. -/
def abandonedEnsure : List (Event Rule.Action) :=
  [.act (.edit (.addNamespace "ns2")), .block .ensure "ns1.pol1.ingress.0_v6",
    .act (.work .ensure)]

theorem abandoned_half_outlives_destroy :
    let (reached, now) := Event.run Rule.Action.apply abandonedEnsure (dualRule, {})
    (∀ event ∈ abandonedEnsure, event.Spares dualRule.id.setName) ∧
    (∀ family, ({} : Store).addresses? (Family.setName family dualRule.id.setName) = none) ∧
    (reached.destroy now).answer = .ok () ∧
    (reached.destroy now).store.addresses? (Family.setName .v4 dualRule.id.setName) = some [] := by
  refine ⟨?_, ?_, by decide +kernel, by decide +kernel⟩
  · simp [abandonedEnsure, Event.Spares]
  · intro family
    simp [Store.addresses?]

theorem abandoned_half_is_empty_and_taken_over :
    let (reached, now) := Event.run Rule.Action.apply abandonedEnsure (dualRule, {})
    dualRule.peers = none ∧
    (∀ family, ({} : Store).contents.half dualRule.id.setName family = none) ∧
    (∀ event ∈ abandonedEnsure, event.Spares dualRule.id.setName) ∧
    reached.peers = none ∧
    Rule.Abandoned dualRule.id.setName (Rule.ensureAnswers abandonedEnsure (dualRule, {}) []) ∧
    ∃ destroyed after, reached.destroy now = ⟨.ok (), destroyed, after⟩ ∧
      destroyed = (dualRule.addNamespace "ns2").2 ∧
      after.addresses? (Family.setName .v6 dualRule.id.setName) = none ∧
      after.addresses? (Family.setName .v4 dualRule.id.setName) = some [] ∧
      ∃ next last, destroyed.ensurePeers after.clearFaults = ⟨.ok (), next, last⟩ ∧
        ∀ family, last.addresses? (Family.setName family dualRule.id.setName) = some [] := by
  have absent : ∀ family, ({} : Store).contents.half dualRule.id.setName family = none := by
    intro family
    simp [Contents.half]
  have sole : ∀ event ∈ abandonedEnsure, event.Spares dualRule.id.setName := by
    simp [abandonedEnsure, Event.Spares]
  have missing : (Event.run Rule.Action.apply abandonedEnsure (dualRule, {})).1.peers = none := by
    have none : (Event.run Rule.Action.apply abandonedEnsure (dualRule, {})).1.peers.isNone = true := by
      decide +kernel
    exact Option.isNone_iff_eq_none.mp none
  have abandoned : Rule.Abandoned dualRule.id.setName
      (Rule.ensureAnswers abandonedEnsure (dualRule, {}) []) :=
    .inl ⟨.failure "ns1.pol1.ingress.0_v6" "blocked", by decide +kernel⟩
  have leaves := destroyed_rule_leaves_abandoned_half_only dualRule {} rfl absent abandonedEnsure sole
  have done : ((Event.run Rule.Action.apply abandonedEnsure (dualRule, {})).1.destroy
      (Event.run Rule.Action.apply abandonedEnsure (dualRule, {})).2).answer = .ok () := by
    decide +kernel
  have again : ((dualRule.addNamespace "ns2").2.ensurePeers
      ((Event.run Rule.Action.apply abandonedEnsure (dualRule, {})).1.destroy
        (Event.run Rule.Action.apply abandonedEnsure (dualRule, {})).2).store.clearFaults).answer =
      .ok () := by decide +kernel
  generalize Event.run Rule.Action.apply abandonedEnsure (dualRule, {}) = ended at *
  obtain ⟨reached, now⟩ := ended
  cases destroying : reached.destroy now with
  | mk answer destroyed after =>
      simp only [destroying] at done again
      obtain rfl : answer = .ok () := done
      obtain ⟨-, rebuilt, gone, -, left, restarts⟩ := leaves destroyed after destroying
      obtain rfl : destroyed = (dualRule.addNamespace "ns2").2 := rebuilt
      cases ensuring : (dualRule.addNamespace "ns2").2.ensurePeers after.clearFaults with
      | mk answer next last =>
          rw [ensuring] at again
          obtain rfl : answer = .ok () := again
          obtain ⟨-, halves⟩ := restarts [.clearFaults] (by simp [Event.Spares]) rfl next last ensuring
          refine ⟨rfl, absent, sole, missing, abandoned, _, _, destroying, rfl, gone,
            left ⟨missing, rfl, abandoned⟩, next, last, ensuring, fun family => ?_⟩
          rw [halves]
          cases family <;> rfl

end PolicyAcl
