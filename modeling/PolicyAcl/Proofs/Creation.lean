import PolicyAcl.Proofs.History
import PolicyAcl.Proofs.Remains
import PolicyAcl.Proofs.Trail

/-! Ensuring the peer set of a rule over and over, while the store refuses now this and
now that. An attempt that stops is taken up again from the first enabled family, finds the
sets that the attempts before it created, and leaves alone what is in a set. -/
namespace PolicyAcl

open Store (Call Contents Entry)

namespace Store.Contents

variable {set : String} {before between after : Contents}

/-- A set is as it was, or it was not there and has been created, once and empty. -/
def CreatedOnce (set : String) (before after : Contents) : Prop :=
  (after.sets[set]? = before.sets[set]? ∧
    after.creations.getD set 0 = before.creations.getD set 0) ∨
  (before.sets[set]? = none ∧ after.sets[set]? = some ∅ ∧
    after.creations.getD set 0 = before.creations.getD set 0 + 1)

theorem CreatedOnce.of_agree {names : Set String} (agree : after.AgreeOn names before)
    (member : set ∈ names) : CreatedOnce set before after := .inl (agree set member)

theorem CreatedOnce.trans (one : CreatedOnce set before between)
    (two : CreatedOnce set between after) : CreatedOnce set before after := by
  rcases two with ⟨same, creations⟩ | ⟨missing, empty, creations⟩
  · rcases one with ⟨same', creations'⟩ | ⟨missing', empty', creations'⟩
    · exact .inl ⟨same.trans same', creations.trans creations'⟩
    · exact .inr ⟨missing', same.trans empty', creations.trans creations'⟩
  · rcases one with ⟨same', creations'⟩ | ⟨-, there, -⟩
    · exact .inr ⟨same'.symm.trans missing, empty, by rw [creations, creations']⟩
    · -- A set that was created is not created again.
      rw [missing] at there
      cases there

theorem CreatedOnce.stays (created : CreatedOnce set before after) (there : set ∈ before.sets) :
    set ∈ after.sets := by
  rw [Std.ExtTreeMap.mem_iff_isSome_getElem?] at there ⊢
  rcases created with ⟨same, -⟩ | ⟨missing, -⟩
  · rwa [same]
  · rw [missing] at there
    cases there

theorem createdOnce_ensure (performed : before.perform (.ensure set) = .ok after) :
    CreatedOnce set before after := by
  have sets := perform_sets performed set
  have creations := perform_creations_getD performed set
  rw [Call.set, if_pos rfl, Call.effect] at sets
  cases found : before.sets[set]? with
  | none =>
      rw [found, Option.getD_none] at sets
      rw [if_pos ⟨rfl, found⟩] at creations
      exact .inr ⟨found, sets, creations⟩
  | some addresses =>
      rw [found, Option.getD_some, ← found] at sets
      rw [if_neg (by simp [found]), Nat.add_zero] at creations
      exact .inl ⟨sets, creations⟩

end Store.Contents

/-- The calls of one attempt in the order in which they are made, and its answer: one
ensure for each family, up to the first that fails. -/
inductive Attempts (base : String) :
    List Family → List (Call × Option Store.Error) → Except PeerError Unit → Prop
  | done : Attempts base [] [] (.ok ())
  | stuck {family families cause} :
      Attempts base (family :: families) [(.ensure (family.setName base), some cause)]
        (.error (.ensure (family.setName base) cause))
  | more {family families made answer} : Attempts base families made answer →
      Attempts base (family :: families) ((.ensure (family.setName base), none) :: made) answer

theorem Attempts.ensures {base : String} {families : List Family}
    {made : List (Call × Option Store.Error)} {answer : Except PeerError Unit}
    (attempts : Attempts base families made answer) :
    ∀ pair ∈ made, ∃ family ∈ families, pair.1 = .ensure (family.setName base) := by
  induction attempts with
  | done => simp
  | stuck => simp
  | more _ ih =>
      refine List.forall_mem_cons.mpr ⟨⟨_, List.mem_cons_self, rfl⟩, fun pair member => ?_⟩
      obtain ⟨family, listed, same⟩ := ih pair member
      exact ⟨family, List.mem_cons_of_mem _ listed, same⟩

/-- What an attempt makes of one store after the other: the sets of the enabled families
are created if need be, those of the other families are not touched, and everything else
that is called for is somebody else's. -/
structure Provides (base : String) (families : Families) (others : Call → Prop)
    (before after : Store) : Prop where
  enabled : ∀ family, families.isEnabled family = true →
    Contents.CreatedOnce (family.setName base) before.contents after.contents
  disabled : ∀ family, families.isEnabled family = false →
    after.addresses? (family.setName base) = before.addresses? (family.setName base) ∧
      after.creations (family.setName base) = before.creations (family.setName base)
  calls : ∃ made, after.journal = made ++ before.journal ∧ ∀ entry ∈ made, others entry.call ∨
    ∃ family, families.isEnabled family = true ∧ entry.call = .ensure (family.setName base)

namespace Provides

variable {base : String} {families : Families} {others : Call → Prop}
  {before between after : Store}

theorem of_same (contents : after.contents = before.contents)
    (journal : after.journal = before.journal) : Provides base families others before after where
  enabled _ _ := .inl (by rw [contents]; exact ⟨rfl, rfl⟩)
  disabled _ _ := by
    rw [Store.addresses?, Store.creations, contents]
    exact ⟨rfl, rfl⟩
  calls := ⟨[], journal, by simp⟩

theorem trans (one : Provides base families others before between)
    (two : Provides base families others between after) :
    Provides base families others before after where
  enabled family on := (one.enabled family on).trans (two.enabled family on)
  disabled family off := by
    obtain ⟨sets, creations⟩ := one.disabled family off
    obtain ⟨sets', creations'⟩ := two.disabled family off
    exact ⟨sets'.trans sets, creations'.trans creations⟩
  calls := by
    obtain ⟨first, called, known⟩ := one.calls
    obtain ⟨second, calledToo, knownToo⟩ := two.calls
    refine ⟨second ++ first, by rw [calledToo, called, List.append_assoc], ?_⟩
    exact List.forall_mem_append.mpr ⟨knownToo, known⟩

theorem submit {call : Call} (foreign : others call)
    (spares : ∀ family, call.set ≠ Family.setName family base) :
    Provides base families others before (before.submit call).2 := by
  have outside (family : Family) := before.submit_spares (Ne.symm (spares family))
  refine ⟨fun family _ => .inl (outside family), ?_, ?_⟩
  · intro family _
    obtain ⟨sets, creations⟩ := outside family
    exact ⟨congrArg _ sets, creations⟩
  · exact ⟨[_], before.submit_journal call, by simpa [Store.Attempt.entry] using .inl foreign⟩

end Provides

namespace PeerSet

variable {base : String} {families : Families} {others : Call → Prop}

theorem ensureEach_attempts (base : String) (items : List Family) (backing : Backing)
    (store : Store) :
    ∃ made, (Intent.each (ensurePlan base) items backing store).store.journal =
        made ++ store.journal ∧
      Attempts base items (made.reverse.map fun entry => (entry.call, entry.error))
        (Intent.each (ensurePlan base) items backing store).answer := by
  induction items generalizing backing store with
  | nil => exact ⟨[], rfl, .done⟩
  | cons family items ih =>
      rw [Intent.each, ensurePlan]
      cases answered : store.answer (.ensure (family.setName base)) with
      | ok contents =>
          rw [Intent.carryOut_of_ok backing answered]
          obtain ⟨made, called, attempts⟩ := ih (backing.put (family.setName base) family)
            { store.record (.ensure (family.setName base)) none with contents }
          refine ⟨made ++ [_], called.trans (List.append_assoc made [_] _).symm, ?_⟩
          rw [List.reverse_concat]
          exact attempts.more
      | error cause =>
          rw [Intent.carryOut_of_error backing answered]
          exact ⟨[_], rfl, .stuck⟩

/-- Ensuring halves one after the other creates no half but theirs. -/
theorem performEach_ensure_creates {items : List Family} {backing reached : Backing}
    {contents after : Contents}
    (performed : Intent.performEach (ensurePlan base) items backing contents =
      .ok (reached, after)) (family : Family) :
    Contents.CreatedOnce (family.setName base) contents after ∧
      (family ∉ items → after.AgreeOn {family.setName base} contents) := by
  induction items generalizing backing contents with
  | nil =>
      cases performed
      exact ⟨.inl ⟨rfl, rfl⟩, fun _ => .refl _ _⟩
  | cons item items ih =>
      rw [Intent.performEach] at performed
      split at performed
      next middle between first =>
        rw [ensurePlan, Intent.perform_submit] at first
        obtain ⟨later, spared⟩ := ih performed
        by_cases same : family = item
        · subst same
          exact ⟨(Contents.createdOnce_ensure first.2).trans later, by simp⟩
        · have outside : Call.set (.ensure (item.setName base)) ∉ ({family.setName base} : Set String) :=
            fun names => same (Family.setName_inj.mp names).1.symm
          have agree := Contents.perform_spares first.2 outside
          refine ⟨(Contents.CreatedOnce.of_agree agree rfl).trans later, fun unlisted => ?_⟩
          exact (spared fun member => unlisted (List.mem_cons_of_mem item member)).trans agree
      next => cases performed

end PeerSet

namespace Rule

open PeerSet (ensurePlan)

variable {rule reached : Rule} {store now : Store} {answers : List (Except PeerError Unit)}
  {others : Call → Prop}

/-- An attempt of a rule without a peer set works through its enabled families, and is
answered as they are. -/
theorem ensurePeers_each (missing : rule.peers = none) (store : Store) :
    ∃ backing, Intent.each (ensurePlan rule.id.setName) rule.families.enabled {} store =
        ⟨(rule.ensurePeers store).answer, backing, (rule.ensurePeers store).store⟩ ∧
      ((rule.ensurePeers store).state.peers ≠ none ↔ (rule.ensurePeers store).answer = .ok ()) := by
  cases ended : rule.ensurePeers store with
  | mk answer next after =>
      rcases ensurePeers_cases ended with
        ⟨some, -⟩ | ⟨peers, -, rfl, ensured, rfl⟩ | ⟨error, none, rfl, failed, rfl⟩
      · exact absurd missing some
      · obtain ⟨backing, worked, -⟩ := PeerSet.ensure_ok ensured
        exact ⟨backing, worked, by simp⟩
      · obtain ⟨backing, worked⟩ := PeerSet.ensure_error failed
        exact ⟨backing, worked, by simp [none]⟩

theorem ensurePeers_held (held : rule.peers ≠ none) (store : Store) :
    rule.ensurePeers store = ⟨.ok (), rule, store⟩ := by
  obtain ⟨peers, some⟩ := Option.ne_none_iff_exists'.mp held
  rw [ensurePeers, some]

theorem ensurePeers_attempts (missing : rule.peers = none) (store : Store) :
    ∃ made, (rule.ensurePeers store).store.journal = made ++ store.journal ∧
      Attempts rule.id.setName rule.families.enabled
        (made.reverse.map fun entry => (entry.call, entry.error)) (rule.ensurePeers store).answer := by
  obtain ⟨backing, worked, -⟩ := ensurePeers_each missing store
  have attempts := PeerSet.ensureEach_attempts rule.id.setName rule.families.enabled {} store
  rwa [worked] at attempts

theorem ensurePeers_provides (rule : Rule) (store : Store) (others : Call → Prop) :
    Provides rule.id.setName rule.families others store (rule.ensurePeers store).store := by
  by_cases missing : rule.peers = none
  · obtain ⟨backing, worked, -⟩ := ensurePeers_each missing store
    obtain ⟨done, rest, split, performed, -⟩ := Intent.each_performs_prefix
      (PeerSet.ensurePlan rule.id.setName) rule.families.enabled {} store
    rw [worked] at performed
    have creates := PeerSet.performEach_ensure_creates performed
    refine ⟨fun family _ => (creates family).1, ?_, ?_⟩
    · intro family off
      have unlisted : family ∉ done := by
        intro member
        have listed : family ∈ rule.families.enabled := by
          rw [split]
          exact List.mem_append_left rest member
        rw [Families.mem_enabled, off] at listed
        cases listed
      obtain ⟨sets, creations⟩ := (creates family).2 unlisted _ rfl
      exact ⟨congrArg _ sets, creations⟩
    · obtain ⟨made, called, attempts⟩ := ensurePeers_attempts missing store
      refine ⟨made, called, fun entry member => .inr ?_⟩
      obtain ⟨family, listed, same⟩ := attempts.ensures (entry.call, entry.error)
        (List.mem_map.mpr ⟨entry, List.mem_reverse.mpr member, rfl⟩)
      exact ⟨family, Families.mem_enabled.mp listed, same⟩
  · rw [ensurePeers_held missing]
    exact .of_same rfl rfl

theorem ensurePeers_there (ensured : (rule.ensurePeers store).answer = .ok ())
    (missing : rule.peers = none) {family : Family} (on : rule.families.isEnabled family = true) :
    family.setName rule.id.setName ∈ (rule.ensurePeers store).store.contents.sets := by
  obtain ⟨backing, worked, -⟩ := ensurePeers_each missing store
  rw [ensured] at worked
  have half := PeerSet.performEach_ensure_halves (Intent.each_done worked) family
  rw [if_pos (Families.mem_enabled.mpr on)] at half
  exact Std.ExtTreeMap.mem_iff_isSome_getElem?.mpr (by rw [← Contents.half, half]; rfl)

/-- A rule that has done nothing but ensure its peer set. -/
structure Trying (rule : Rule) (store : Store) (others : Call → Prop)
    (answers : List (Except PeerError Unit)) (reached : Rule) (now : Store) : Prop where
  id : reached.id = rule.id
  families : reached.families = rule.families
  answered : reached.peers ≠ none ↔ .ok () ∈ answers
  there : .ok () ∈ answers → ∀ family, rule.families.isEnabled family = true →
    family.setName rule.id.setName ∈ now.contents.sets
  provides : Provides rule.id.setName rule.families others store now

theorem Trying.later (trying : rule.Trying store others answers reached now) {after : Store}
    (provides : Provides rule.id.setName rule.families others now after) :
    rule.Trying store others answers reached after where
  id := trying.id
  families := trying.families
  answered := trying.answered
  there ensured family on := (provides.enabled family on).stays (trying.there ensured family on)
  provides := trying.provides.trans provides

theorem Trying.ensure (trying : rule.Trying store others answers reached now) :
    rule.Trying store others ((reached.ensurePeers now).answer :: answers)
      (reached.ensurePeers now).state (reached.ensurePeers now).store := by
  have provides := ensurePeers_provides reached now others
  rw [trying.id, trying.families] at provides
  by_cases missing : reached.peers = none
  · obtain ⟨-, -, answered⟩ := ensurePeers_each missing now
    have unanswered : .ok () ∉ answers := fun ensured => trying.answered.mpr ensured missing
    have first : .ok () ∈ (reached.ensurePeers now).answer :: answers ↔
        (reached.ensurePeers now).answer = .ok () := by
      simp [unanswered, eq_comm]
    obtain ⟨peers, same⟩ := Operation.ensure.apply_state reached now
    rw [Operation.apply] at same
    refine ⟨by rw [same]; exact trying.id, by rw [same]; exact trying.families,
      answered.trans first.symm, ?_, trying.provides.trans provides⟩
    intro ensured family on
    rw [← trying.families] at on
    rw [← trying.id]
    exact ensurePeers_there (first.mp ensured) missing on
  · rw [ensurePeers_held missing]
    have ensured := trying.answered.mp missing
    exact ⟨trying.id, trying.families, by simp [missing], fun _ => trying.there ensured,
      trying.provides⟩

theorem Trying.edit (trying : rule.Trying store others answers reached now) (change : Edit) :
    rule.Trying store others answers (change.apply reached) now := by
  cases change <;> exact ⟨trying.id, trying.families, trying.answered, trying.there, trying.provides⟩

theorem Trying.run (trying : rule.Trying store others answers reached now)
    {events : List (Event Action)}
    (only : ∀ operation, .act (.work operation) ∈ events → operation = .ensure)
    (sole : ∀ event ∈ events, event.Spares rule.id.setName)
    (known : ∀ call, .foreign call ∈ events → others call) :
    rule.Trying store others (ensureAnswers events (reached, now) answers)
      (Event.run Action.apply events (reached, now)).1
      (Event.run Action.apply events (reached, now)).2 := by
  induction events generalizing reached now answers with
  | nil => exact trying
  | cons event events ih =>
      have only' := fun operation member => only operation (List.mem_cons_of_mem event member)
      have sole' := fun other member => sole other (List.mem_cons_of_mem event member)
      have known' := fun call member => known call (List.mem_cons_of_mem event member)
      cases event with
      | act action =>
          cases action with
          | work operation =>
              obtain rfl : operation = .ensure := only operation List.mem_cons_self
              exact ih trying.ensure only' sole' known'
          | edit change => exact ih (trying.edit change) only' sole' known'
      | failOn op => exact ih (trying.later (.of_same rfl rfl)) only' sole' known'
      | block op set => exact ih (trying.later (.of_same rfl rfl)) only' sole' known'
      | clearFaults => exact ih (trying.later (.of_same rfl rfl)) only' sole' known'
      | foreign call =>
          have spares := sole (.foreign call) List.mem_cons_self
          have foreign := known call List.mem_cons_self
          exact ih (trying.later (.submit foreign spares)) only' sole' known'

end Rule

/-- However often the peer set of a rule is ensured and whatever the store refuses, each
attempt begins with the first enabled family until one succeeds, and after that none calls
the store. A set that is there is kept; a set that is not is created once, before an
attempt has succeeded at the latest. The sets of the other families are not touched. -/
theorem ensuring_creates_each_set_once (rule : Rule) (fresh : rule.peers = none) (store : Store)
    (events : List (Event Rule.Action))
    (only : ∀ operation, .act (.work operation) ∈ events → operation = .ensure)
    (sole : ∀ event ∈ events, event.Spares rule.id.setName) :
    let base := rule.id.setName
    let (reached, now) := Event.run Rule.Action.apply events (rule, store)
    let answers := Rule.ensureAnswers events (rule, store) []
    (reached.peers ≠ none ↔ .ok () ∈ answers) ∧
    (∀ next : Store,
      (.ok () ∈ answers → reached.ensurePeers next = ⟨.ok (), reached, next⟩) ∧
      (.ok () ∉ answers → ∃ made,
        (reached.ensurePeers next).store.journal = made ++ next.journal ∧
        Attempts base rule.families.enabled
          (made.reverse.map fun entry => (entry.call, entry.error))
          (reached.ensurePeers next).answer)) ∧
    (∀ family, rule.families.isEnabled family = true →
      Contents.CreatedOnce (family.setName base) store.contents now.contents ∧
      (.ok () ∈ answers → now.addresses? (family.setName base) ≠ none)) ∧
    (∀ family, rule.families.isEnabled family = false →
      now.addresses? (family.setName base) = store.addresses? (family.setName base) ∧
      now.creations (family.setName base) = store.creations (family.setName base)) ∧
    ∃ made, now.journal = made ++ store.journal ∧ ∀ entry ∈ made, .foreign entry.call ∈ events ∨
      ∃ family, rule.families.isEnabled family = true ∧
        entry.call = .ensure (family.setName base) := by
  have start : rule.Trying store (fun call => .foreign call ∈ events) [] rule store :=
    ⟨rfl, rfl, by simp [fresh], by simp, .of_same rfl rfl⟩
  have trying := start.run only sole fun _ member => member
  generalize Event.run Rule.Action.apply events (rule, store) = ended at trying
  obtain ⟨reached, now⟩ := ended
  refine ⟨trying.answered, fun next => ⟨?_, ?_⟩, ?_, trying.provides.disabled, trying.provides.calls⟩
  · intro ensured
    exact Rule.ensurePeers_held (trying.answered.mpr ensured) next
  · intro unanswered
    have missing : reached.peers = none := not_not.mp fun held => unanswered (trying.answered.mp held)
    have attempts := Rule.ensurePeers_attempts missing next
    rwa [trying.id, trying.families] at attempts
  · intro family on
    refine ⟨trying.provides.enabled family on, fun ensured absent => ?_⟩
    exact Store.addresses?_eq_none.mp absent (trying.there ensured family on)

/-- The IPv4 half is there, and the IPv6 half is blocked at first. -/
def stubbornEnsures : List (Event Rule.Action) :=
  [.block .ensure "ns1.pol1.ingress.0_v6", .act (.work .ensure), .foreign (.destroy "ns2_v4"),
    .act (.work .ensure), .clearFaults, .act (.work .ensure), .failOn .ensure,
    .act (.work .ensure)]

def usedStore : Store :=
  { contents.sets := (∅ : Std.ExtTreeMap String AddressSet).insert "ns1.pol1.ingress.0_v4"
      ((∅ : AddressSet).insert (.v4 ⟨10, 0, 0, 1⟩)) }

theorem ensuring_creates_each_set_once_stubborn :
    let (reached, now) := Event.run Rule.Action.apply stubbornEnsures (dualRule, usedStore)
    let blocked := PeerError.ensure "ns1.pol1.ingress.0_v6"
      (.failure "ns1.pol1.ingress.0_v6" "blocked")
    dualRule.peers = none ∧
    (∀ operation, .act (.work operation) ∈ stubbornEnsures → operation = .ensure) ∧
    (∀ event ∈ stubbornEnsures, event.Spares dualRule.id.setName) ∧
    Rule.ensureAnswers stubbornEnsures (dualRule, usedStore) [] =
      [.ok (), .ok (), .error blocked, .error blocked] ∧
    now.faults.failing = [.ensure] ∧ reached.ensurePeers now = ⟨.ok (), reached, now⟩ ∧
    now.addresses? "ns1.pol1.ingress.0_v4" = some [.v4 ⟨10, 0, 0, 1⟩] ∧
    now.addresses? "ns1.pol1.ingress.0_v6" = some [] ∧
    now.creations "ns1.pol1.ingress.0_v4" = 0 ∧ now.creations "ns1.pol1.ingress.0_v6" = 1 := by
  have only : ∀ operation, .act (.work operation) ∈ stubbornEnsures → operation = .ensure := by
    simp [stubbornEnsures]
  have sole : ∀ event ∈ stubbornEnsures, event.Spares dualRule.id.setName := by
    have elsewhere (family : Family) : "ns2_v4" ≠ family.setName dualRule.id.setName := by
      cases family <;> decide
    simpa [stubbornEnsures, Event.Spares, Call.set] using elsewhere
  have answers : Rule.ensureAnswers stubbornEnsures (dualRule, usedStore) [] =
      [.ok (), .ok (),
        .error (.ensure "ns1.pol1.ingress.0_v6" (.failure "ns1.pol1.ingress.0_v6" "blocked")),
        .error (.ensure "ns1.pol1.ingress.0_v6" (.failure "ns1.pol1.ingress.0_v6" "blocked"))] := by
    decide +kernel
  have failing : (Event.run Rule.Action.apply stubbornEnsures (dualRule, usedStore)).2.faults.failing =
      [.ensure] := by decide +kernel
  have ensuring := ensuring_creates_each_set_once dualRule rfl usedStore stubbornEnsures only sole
  generalize Event.run Rule.Action.apply stubbornEnsures (dualRule, usedStore) = ended
    at ensuring failing ⊢
  obtain ⟨reached, now⟩ := ended
  obtain ⟨-, next, halves, -⟩ := ensuring
  have ensured : .ok () ∈ Rule.ensureAnswers stubbornEnsures (dualRule, usedStore) [] := by
    simp [answers]
  obtain ⟨four, -⟩ := halves .v4 rfl
  obtain ⟨six, there⟩ := halves .v6 rfl
  have found : usedStore.addresses? "ns1.pol1.ingress.0_v4" = some [.v4 ⟨10, 0, 0, 1⟩] := by
    decide +kernel
  have missing : usedStore.addresses? "ns1.pol1.ingress.0_v6" = none := by decide +kernel
  have kept : now.addresses? "ns1.pol1.ingress.0_v4" = some [.v4 ⟨10, 0, 0, 1⟩] ∧
      now.creations "ns1.pol1.ingress.0_v4" = 0 := by
    rcases four with ⟨same, creations⟩ | ⟨absent, -⟩
    · exact ⟨(congrArg _ same).trans found, creations⟩
    · have none : usedStore.addresses? "ns1.pol1.ingress.0_v4" = none := congrArg _ absent
      rw [none] at found
      cases found
  have created : now.addresses? "ns1.pol1.ingress.0_v6" = some [] ∧
      now.creations "ns1.pol1.ingress.0_v6" = 1 := by
    rcases six with ⟨same, -⟩ | ⟨-, empty, creations⟩
    · exact absurd ((congrArg _ same).trans missing) (there ensured)
    · exact ⟨congrArg _ empty, creations⟩
  exact ⟨rfl, only, sole, answers, failing, (next now).1 ensured, kept.1, created.1, kept.2,
    created.2⟩

end PolicyAcl
