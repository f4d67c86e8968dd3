import PolicyAcl.Proofs.Store
import PolicyAcl.Rule.Operations

/-! Every operation on a peer set works through a list of items, and the state
alone decides what is to be done about an item: something that the store need not
know of, a complaint, or one store call. Faults only decide how far the list is
worked through; a run under faults is a fault-free run on a prefix of it. -/
namespace PolicyAcl

open Store (Contents Call)

/-- What is to be done about one item. The next state is only taken if the store
call succeeds. -/
inductive Intent (σ : Type) where
  | quiet (next : σ)
  | refuse (error : PeerError)
  | submit (call : Call) (next : σ) (complain : Store.Error → PeerError)

namespace Intent

variable {σ α : Type}

/-- The answer tells whether the store was called. -/
def carryOut (intent : Intent σ) (state : σ) (store : Store) : Outcome σ Bool :=
  match intent with
  | .quiet next => ⟨.ok false, next, store⟩
  | .refuse error => ⟨.error error, state, store⟩
  | .submit call next complain =>
    match store.submit call with
    | (.ok (), store) => ⟨.ok true, next, store⟩
    | (.error cause, store) => ⟨.error (complain cause), state, store⟩

/-- The next state and contents when nothing refuses the store call. -/
def perform (intent : Intent σ) (contents : Contents) : Except PeerError (σ × Contents) :=
  match intent with
  | .quiet next => .ok (next, contents)
  | .refuse error => .error error
  | .submit call next complain =>
    match contents.perform call with
    | .ok contents => .ok (next, contents)
    | .error cause => .error (complain cause)

/-- Carry out the plan for each item in turn, up to the first failure. -/
def each (plan : α → σ → Intent σ) : List α → σ → Store → Outcome σ Unit
  | [], state, store => ⟨.ok (), state, store⟩
  | item :: items, state, store =>
    match (plan item state).carryOut state store with
    | ⟨.ok _, state, store⟩ => each plan items state store
    | ⟨.error error, state, store⟩ => ⟨.error error, state, store⟩

/-- The plan for each item in turn when nothing refuses a store call. -/
def performEach (plan : α → σ → Intent σ) :
    List α → σ → Contents → Except PeerError (σ × Contents)
  | [], state, contents => .ok (state, contents)
  | item :: items, state, contents =>
    match (plan item state).perform contents with
    | .ok (state, contents) => performEach plan items state contents
    | .error error => .error error

theorem carryOut_of_ok {call : Call} {next : σ} {complain : Store.Error → PeerError}
    {store : Store} {contents : Contents} (state : σ) (h : store.answer call = .ok contents) :
    (Intent.submit call next complain).carryOut state store =
      ⟨.ok true, next, { store.record call none with contents }⟩ := by
  simp only [carryOut, Store.submit_of_ok h]

theorem carryOut_of_error {call : Call} {next : σ} {complain : Store.Error → PeerError}
    {store : Store} {cause : Store.Error} (state : σ) (h : store.answer call = .error cause) :
    (Intent.submit call next complain).carryOut state store =
      ⟨.error (complain cause), state, store.record call (some cause)⟩ := by
  simp only [carryOut, Store.submit_of_error h]

theorem perform_submit {call : Call} {next state : σ} {complain : Store.Error → PeerError}
    {contents after : Contents} :
    (Intent.submit call next complain).perform contents = .ok (state, after) ↔
      next = state ∧ contents.perform call = .ok after := by
  simp only [perform]
  cases contents.perform call with
  | ok reached => simp
  | error cause => simp

theorem carryOut_ok {intent : Intent σ} {state next : σ} {store after : Store} {called : Bool}
    (h : intent.carryOut state store = ⟨.ok called, next, after⟩) :
    intent.perform store.contents = .ok (next, after.contents) := by
  cases intent with
  | quiet =>
      cases h
      rfl
  | refuse => cases h
  | submit call _ complain =>
      cases answered : store.answer call with
      | ok contents =>
          rw [carryOut_of_ok state answered] at h
          cases h
          simp only [perform, Store.answer_ok_perform answered]
      | error cause =>
          rw [carryOut_of_error state answered] at h
          cases h

theorem carryOut_error {intent : Intent σ} {state next : σ} {store after : Store}
    {error : PeerError} (h : intent.carryOut state store = ⟨.error error, next, after⟩) :
    next = state ∧ after.contents = store.contents := by
  cases intent with
  | quiet => cases h
  | refuse =>
      cases h
      exact ⟨rfl, rfl⟩
  | submit call _ complain =>
      cases answered : store.answer call with
      | ok contents =>
          rw [carryOut_of_ok state answered] at h
          cases h
      | error cause =>
          rw [carryOut_of_error state answered] at h
          cases h
          exact ⟨rfl, rfl⟩

theorem carryOut_preserves {intent : Intent σ} (Inv : σ → Contents → Prop) {state : σ}
    {store : Store} (start : Inv state store.contents)
    (step : ∀ next after, intent.perform store.contents = .ok (next, after) → Inv next after) :
    Inv (intent.carryOut state store).state (intent.carryOut state store).store.contents := by
  cases h : intent.carryOut state store with
  | mk answer next after =>
      cases answer with
      | ok called => exact step next after.contents (carryOut_ok h)
      | error error =>
          obtain ⟨rfl, same⟩ := carryOut_error h
          simpa only [same] using start

theorem carryOut_faults (intent : Intent σ) (state : σ) (store : Store) :
    (intent.carryOut state store).store.faults = store.faults := by
  cases intent with
  | quiet => rfl
  | refuse => rfl
  | submit call _ complain =>
      cases answered : store.answer call with
      | ok contents => rw [carryOut_of_ok state answered]; rfl
      | error cause => rw [carryOut_of_error state answered]; rfl

theorem carryOut_faultless_error {intent : Intent σ} {state next : σ} {store after : Store}
    {error : PeerError} (faultless : store.faults = {})
    (h : intent.carryOut state store = ⟨.error error, next, after⟩) :
    intent.perform store.contents = .error error := by
  cases intent with
  | quiet => cases h
  | refuse =>
      cases h
      rfl
  | submit call _ complain =>
      cases answered : store.answer call with
      | ok contents =>
          rw [carryOut_of_ok state answered] at h
          cases h
      | error cause =>
          rw [carryOut_of_error state answered] at h
          cases h
          simp only [perform, ← Store.answer_faultless faultless, answered]

theorem each_append (plan : α → σ → Intent σ) (before after : List α) (state : σ) (store : Store) :
    each plan (before ++ after) state store =
      match each plan before state store with
      | ⟨.ok _, state, store⟩ => each plan after state store
      | ⟨.error error, state, store⟩ => ⟨.error error, state, store⟩ := by
  induction before generalizing state store with
  | nil => rfl
  | cons item before ih =>
      simp only [List.cons_append, each]
      split
      · exact ih _ _
      · rfl

theorem performEach_append (plan : α → σ → Intent σ) (before after : List α) (state : σ)
    (contents : Contents) :
    performEach plan (before ++ after) state contents =
      match performEach plan before state contents with
      | .ok (state, contents) => performEach plan after state contents
      | .error error => .error error := by
  induction before generalizing state contents with
  | nil => rfl
  | cons item before ih =>
      simp only [List.cons_append, performEach]
      split
      · exact ih _ _
      · rfl

theorem each_faults (plan : α → σ → Intent σ) (items : List α) (state : σ) (store : Store) :
    (each plan items state store).store.faults = store.faults := by
  induction items generalizing state store with
  | nil => rfl
  | cons item items ih =>
      have kept := carryOut_faults (plan item state) state store
      simp only [each]
      split
      next next after h =>
        rw [h] at kept
        exact (ih _ _).trans kept
      next next after h =>
        rw [h] at kept
        exact kept

/-- Whatever the faults are, working through a list ends as working through a
prefix of it ends without faults, and a success has worked through all of it. -/
theorem each_performs_prefix (plan : α → σ → Intent σ) (items : List α) (state : σ)
    (store : Store) :
    ∃ done rest, items = done ++ rest ∧
      performEach plan done state store.contents =
        .ok ((each plan items state store).state, (each plan items state store).store.contents) ∧
      ((each plan items state store).answer = .ok () → rest = []) := by
  induction items generalizing state store with
  | nil => exact ⟨[], [], rfl, rfl, fun _ => rfl⟩
  | cons item items ih =>
      simp only [each]
      split
      next next after h =>
        obtain ⟨done, rest, split, performed, complete⟩ := ih next after
        refine ⟨item :: done, rest, by rw [split, List.cons_append], ?_, complete⟩
        simpa only [performEach, carryOut_ok h] using performed
      next error next after h =>
        -- A refused item leaves no trace, so the prefix ends before it.
        obtain ⟨rfl, same⟩ := carryOut_error h
        exact ⟨[], item :: items, rfl, by simp only [performEach, same], fun failed => by cases failed⟩

theorem each_done {plan : α → σ → Intent σ} {items : List α} {state next : σ}
    {store after : Store} (h : each plan items state store = ⟨.ok (), next, after⟩) :
    performEach plan items state store.contents = .ok (next, after.contents) := by
  obtain ⟨done, rest, split, performed, complete⟩ := each_performs_prefix plan items state store
  rw [h] at performed complete
  rw [split, complete rfl, List.append_nil]
  exact performed

/-- A list that is not worked through to its end stops at an item of it, where
everything before is done. -/
theorem each_stops {plan : α → σ → Intent σ} {items : List α} {state next : σ}
    {store after : Store} {error : PeerError}
    (h : each plan items state store = ⟨.error error, next, after⟩) :
    ∃ done item rest reached between, items = done ++ item :: rest ∧
      each plan done state store = ⟨.ok (), reached, between⟩ ∧
      (plan item reached).carryOut reached between = ⟨.error error, next, after⟩ := by
  induction items generalizing state store with
  | nil => cases h
  | cons item items ih =>
      rw [each] at h
      split at h
      next middle between carried =>
        obtain ⟨done, stuck, rest, reached, last, split, worked, failed⟩ := ih h
        refine ⟨item :: done, stuck, rest, reached, last, by rw [split, List.cons_append], ?_, failed⟩
        rw [each, carried]
        exact worked
      next middle between carried =>
        cases h
        exact ⟨[], item, items, state, store, rfl, rfl, carried⟩

theorem each_error {plan : α → σ → Intent σ} {items : List α} {state next : σ}
    {store after : Store} {error : PeerError}
    (h : each plan items state store = ⟨.error error, next, after⟩) :
    ∃ done item rest reached between, items = done ++ item :: rest ∧
      performEach plan done state store.contents = .ok (reached, between.contents) ∧
      (plan item reached).carryOut reached between = ⟨.error error, next, after⟩ := by
  obtain ⟨done, item, rest, reached, between, split, worked, failed⟩ := each_stops h
  exact ⟨done, item, rest, reached, between, split, each_done worked, failed⟩

theorem each_preserves (plan : α → σ → Intent σ) (Inv : σ → Contents → Prop) {items : List α}
    (step : ∀ item ∈ items, ∀ state contents next after, Inv state contents →
      (plan item state).perform contents = .ok (next, after) → Inv next after)
    {state : σ} {store : Store} (start : Inv state store.contents) :
    Inv (each plan items state store).state (each plan items state store).store.contents := by
  induction items generalizing state store with
  | nil => exact start
  | cons item items ih =>
      simp only [each]
      split
      next next after h =>
        exact ih (fun item member => step item (List.mem_cons_of_mem _ member))
          (step item List.mem_cons_self _ _ _ _ start (carryOut_ok h))
      next error next after h =>
        obtain ⟨rfl, same⟩ := carryOut_error h
        simpa only [same] using start

theorem each_faultless {plan : α → σ → Intent σ} {items : List α} {state : σ} {store : Store}
    (faultless : store.faults = {}) :
    performEach plan items state store.contents =
      match each plan items state store with
      | ⟨.ok _, state, store⟩ => .ok (state, store.contents)
      | ⟨.error error, _, _⟩ => .error error := by
  induction items generalizing state store with
  | nil => rfl
  | cons item items ih =>
      have kept := carryOut_faults (plan item state) state store
      simp only [each, performEach]
      cases h : (plan item state).carryOut state store with
      | mk answer next after =>
          rw [h] at kept
          cases answer with
          | ok called =>
              simp only [carryOut_ok h]
              exact ih (kept.trans faultless)
          | error error => simp only [carryOut_faultless_error faultless h]

theorem each_of_performEach {plan : α → σ → Intent σ} {items : List α} {state next : σ}
    {store : Store} {contents : Contents} (faultless : store.faults = {})
    (performed : performEach plan items state store.contents = .ok (next, contents)) :
    ∃ after, each plan items state store = ⟨.ok (), next, after⟩ ∧ after.contents = contents ∧
      after.faults = {} := by
  have kept := each_faults plan items state store
  rw [each_faultless faultless] at performed
  cases ended : each plan items state store with
  | mk answer reached after =>
      rw [ended] at performed kept
      cases answer with
      | ok done =>
          cases performed
          exact ⟨after, rfl, rfl, kept.trans faultless⟩
      | error error => cases performed

theorem performEach_succeeds {plan : α → σ → Intent σ} (Inv : σ → Contents → Prop)
    {items : List α}
    (step : ∀ item ∈ items, ∀ state contents, Inv state contents →
      ∃ next after, (plan item state).perform contents = .ok (next, after) ∧ Inv next after)
    {state : σ} {contents : Contents} (start : Inv state contents) :
    ∃ next after, performEach plan items state contents = .ok (next, after) ∧ Inv next after := by
  induction items generalizing state contents with
  | nil => exact ⟨state, contents, rfl, start⟩
  | cons item items ih =>
      obtain ⟨middle, between, first, inv⟩ := step item List.mem_cons_self state contents start
      simp only [performEach, first]
      exact ih (fun other member => step other (List.mem_cons_of_mem item member)) inv

/-- What a step settles about its own item, and no step unsettles, is settled about
every item in the end. -/
theorem performEach_settles {plan : α → σ → Intent σ} (Settled : α → σ → Contents → Prop)
    (settles : ∀ item state contents next after,
      (plan item state).perform contents = .ok (next, after) → Settled item next after)
    (keeps : ∀ item other state contents next after, Settled other state contents →
      (plan item state).perform contents = .ok (next, after) → Settled other next after)
    {items : List α} {state next : σ} {contents after : Contents}
    (performed : performEach plan items state contents = .ok (next, after)) {item : α}
    (listed : item ∈ items ∨ Settled item state contents) : Settled item next after := by
  induction items generalizing state contents with
  | nil =>
      cases performed
      exact listed.resolve_left (List.not_mem_nil)
  | cons head items ih =>
      simp only [performEach] at performed
      split at performed
      next middle between h =>
        refine ih performed ?_
        rcases listed with member | settled
        · rcases List.mem_cons.mp member with rfl | later
          · exact .inr (settles _ _ _ _ _ h)
          · exact .inl later
        · exact .inr (keeps _ _ _ _ _ _ settled h)
      next => cases performed

theorem performEach_settled {plan : α → σ → Intent σ} (Settled : α → σ → Prop)
    (rests : ∀ item state, Settled item state → plan item state = .quiet state)
    {items : List α} {state : σ} (settled : ∀ item ∈ items, Settled item state)
    (contents : Contents) : performEach plan items state contents = .ok (state, contents) := by
  induction items with
  | nil => rfl
  | cons item items ih =>
      rw [performEach, rests item state (settled item List.mem_cons_self), perform]
      exact ih fun other member => settled other (List.mem_cons_of_mem item member)

/-- Working through a list again that was left unfinished ends as working through the
rest of it does. -/
theorem performEach_resume {plan : α → σ → Intent σ} (Settled : α → σ → Prop)
    (rests : ∀ item state, Settled item state → plan item state = .quiet state)
    (settles : ∀ item state contents next after,
      (plan item state).perform contents = .ok (next, after) → Settled item next)
    (keeps : ∀ item other state contents next after, Settled other state →
      (plan item state).perform contents = .ok (next, after) → Settled other next)
    {items : List α} {state next : σ} {store after : Store} {error : PeerError}
    (failed : each plan items state store = ⟨.error error, next, after⟩) :
    performEach plan items next after.contents = performEach plan items state store.contents := by
  obtain ⟨done, rest, split, performed, -⟩ := each_performs_prefix plan items state store
  rw [failed] at performed
  have settled : ∀ item ∈ done, Settled item next := fun item member =>
    performEach_settles (fun item state _ => Settled item state) settles keeps performed (.inl member)
  rw [split, performEach_append, performEach_append, performed,
    performEach_settled Settled rests settled]

end Intent

end PolicyAcl
