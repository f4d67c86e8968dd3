import PolicyAcl.Proofs.Reach

/-! A store is what was done to it. A client asks for sets by name, and does the rest through
the handles that it was given for them, which it may keep for as long as it likes. What sets
there are, what they hold and how often they were made is read off the attempts of the client. -/
namespace PolicyAcl

/-- It has happened, and was not undone since; what happened last comes first. -/
def Since {α : Type} (happens undoes : α → Prop) (history : List α) : Prop :=
  ∃ later event earlier, history = later ++ event :: earlier ∧ happens event ∧
    ∀ other ∈ later, ¬undoes other

section
variable {α : Type} {happens undoes : α → Prop} {event : α} {history : List α}

theorem since_cons : Since happens undoes (event :: history) ↔
    happens event ∨ ¬undoes event ∧ Since happens undoes history := by
  constructor
  · rintro ⟨later, first, earlier, split, happened, kept⟩
    cases later with
    | nil =>
        obtain ⟨rfl, -⟩ := List.cons.inj split
        exact .inl happened
    | cons latest later =>
        obtain ⟨rfl, rfl⟩ := List.cons.inj split
        obtain ⟨still, kept⟩ := List.forall_mem_cons.mp kept
        exact .inr ⟨still, later, first, earlier, rfl, happened, kept⟩
  · rintro (happened | ⟨still, later, first, earlier, rfl, happened, kept⟩)
    · exact ⟨[], event, history, rfl, happened, by simp⟩
    · exact ⟨event :: later, first, earlier, rfl, happened, List.forall_mem_cons.mpr ⟨still, kept⟩⟩

theorem not_since_nil : ¬Since happens undoes [] := by
  rintro ⟨later, first, earlier, split, -⟩
  simp at split

end

namespace Store

/-- What is done through a handle. -/
inductive Use where
  | add (addresses : List Address)
  | delete (addresses : List Address)
  | destroy

def Use.on (set : String) : Use → Call
  | .add addresses => .add set addresses
  | .delete addresses => .delete set addresses
  | .destroy => .destroy set

/-- What a client asks for. Handles are numbered in the order in which they are given out. -/
inductive Request where
  | ensure (set : String)
  | through (handle : Nat) (use : Use)
  | failOn (op : Op)
  | block (op : Op) (set : String)
  | clearFaults

/-- A call that was made, and the store that it was made on. -/
structure Attempt where
  before : Store
  call : Call

namespace Attempt

def answer (attempt : Attempt) : Except Error Unit := (attempt.before.submit attempt.call).1

/-- The call was made and succeeded. -/
def Did (call : Call) (attempt : Attempt) : Prop := attempt.call = call ∧ attempt.answer = .ok ()

/-- The set is ensured, and was not there before. -/
def Creates (set : String) (attempt : Attempt) : Prop :=
  attempt.Did (.ensure set) ∧ set ∉ attempt.before.contents.sets

/-- The set is destroyed, and was there before. -/
def Removes (set : String) (attempt : Attempt) : Prop :=
  attempt.Did (.destroy set) ∧ set ∈ attempt.before.contents.sets

def Adds (set : String) (address : Address) (attempt : Attempt) : Prop :=
  ∃ addresses, attempt.Did (.add set addresses) ∧ address ∈ addresses

def Deletes (set : String) (address : Address) (attempt : Attempt) : Prop :=
  ∃ addresses, attempt.Did (.delete set addresses) ∧ address ∈ addresses

/-- What the journal keeps of an attempt. -/
def entry (attempt : Attempt) : Entry :=
  ⟨attempt.call, !attempt.before.faults.blocks attempt.call, error? attempt.answer⟩

/-- A call of this kind that is not kept from its set. -/
def Reaches (op : Op) (attempt : Attempt) : Prop :=
  attempt.call.op = op ∧ attempt.before.faults.blocks attempt.call = false

instance (call : Call) (attempt : Attempt) : Decidable (attempt.Did call) :=
  inferInstanceAs (Decidable (_ ∧ _))

instance (set : String) (attempt : Attempt) : Decidable (attempt.Creates set) :=
  inferInstanceAs (Decidable (_ ∧ _))

instance (set : String) (attempt : Attempt) : Decidable (attempt.Removes set) :=
  inferInstanceAs (Decidable (_ ∧ _))

instance (op : Op) (attempt : Attempt) : Decidable (attempt.Reaches op) :=
  inferInstanceAs (Decidable (_ ∧ _))

end Attempt

/-- The set was ensured, and not destroyed since. -/
def Stands (set : String) (attempts : List Attempt) : Prop :=
  Since (·.Did (.ensure set)) (·.Did (.destroy set)) attempts

/-- Since the set was created last, the address was added, and not deleted after that. -/
def Keeps (set : String) (address : Address) (attempts : List Attempt) : Prop :=
  Since (·.Adds set address) (·.Deletes set address) (attempts.takeWhile fun a => ¬a.Creates set)

/-- A client knows the names behind its handles, and what it has attempted, the latest first. -/
structure Client where
  store : Store := {}
  handles : List String := []
  attempts : List Attempt := []

namespace Client

def attempt (client : Client) (call : Call) : Client :=
  { client with
    store := (client.store.submit call).2
    attempts := ⟨client.store, call⟩ :: client.attempts }

/-- An ensure that succeeds gives out a handle. Nothing can be done through a handle that was
not given out. -/
def ask (client : Client) : Request → Client
  | .ensure set =>
    match (client.store.submit (.ensure set)).1 with
    | .ok () => { client.attempt (.ensure set) with handles := client.handles ++ [set] }
    | .error _ => client.attempt (.ensure set)
  | .through handle use =>
    match client.handles[handle]? with
    | some set => client.attempt (use.on set)
    | none => client
  | .failOn op => { client with store := client.store.failOn op }
  | .block op set => { client with store := client.store.block op set }
  | .clearFaults => { client with store := client.store.clearFaults }

def run (client : Client) (requests : List Request) : Client := requests.foldl ask client

end Client

end Store

open Store (Attempt Call Client Contents Error Keeps Op Request Stands)

namespace Store

variable {attempt : Attempt} {attempts : List Attempt}
  {store : Store} {call : Call} {set : String} {address : Address}

theorem mem_inserted {addresses : List Address} {old : AddressSet} :
    address ∈ addresses.foldl (·.insert ·) old ↔ address ∈ addresses ∨ address ∈ old := by
  induction addresses generalizing old with
  | nil => simp
  | cons first addresses ih =>
      rw [List.foldl_cons, ih, Std.ExtTreeSet.mem_insert, List.mem_cons,
        Std.LawfulEqCmp.compare_eq_iff_eq, eq_comm, ← or_assoc, or_comm (a := address ∈ addresses)]

theorem mem_erased {addresses : List Address} {old : AddressSet} :
    address ∈ addresses.foldl (·.erase ·) old ↔ address ∉ addresses ∧ address ∈ old := by
  induction addresses generalizing old with
  | nil => simp
  | cons first addresses ih =>
      rw [List.foldl_cons, ih, Std.ExtTreeSet.mem_erase, List.mem_cons, ne_eq,
        Std.LawfulEqCmp.compare_eq_iff_eq, eq_comm, not_or, and_assoc, and_left_comm]

theorem perform_of_accepted {after : Store} (accepted : store.submit call = (.ok (), after)) :
    store.contents.perform call = .ok after.contents := by
  cases answered : store.answer call with
  | ok contents =>
      rw [submit_of_ok answered] at accepted
      cases accepted
      exact answer_ok_perform answered
  | error cause =>
      rw [submit_of_error answered] at accepted
      cases accepted

theorem eq_of_refused {cause : Error} {after : Store}
    (refused : store.submit call = (.error cause, after)) :
    after = store.record call (some cause) := by
  cases answered : store.answer call with
  | ok contents =>
      rw [submit_of_ok answered] at refused
      cases refused
  | error cause =>
      rw [submit_of_error answered] at refused
      cases refused
      rfl

theorem submit_journal (store : Store) (call : Call) :
    (store.submit call).2.journal = Attempt.entry ⟨store, call⟩ :: store.journal := by
  cases submitted : store.submit call with
  | mk answer after =>
    rw [Attempt.entry, Attempt.answer, submitted]
    cases answer with
    | ok _ =>
        cases answered : store.answer call with
        | ok contents => rw [submit_of_ok answered] at submitted; cases submitted; rfl
        | error cause => rw [submit_of_error answered] at submitted; cases submitted
    | error cause => rw [eq_of_refused submitted]; rfl

/-- How a store takes a call, whatever it was through before. -/
structure Takes (store : Store) (call : Call) : Prop where
  spares : ∀ set, set ≠ call.set →
    (store.submit call).2.addresses? set = store.addresses? set ∧
      (store.submit call).2.creations set = store.creations set
  refuses : ∀ cause, (store.submit call).1 = .error cause →
    (store.submit call).2.contents = store.contents
  ensures : ∀ set, call = .ensure set → store.addresses? set ≠ none →
    (store.submit call).2.contents = store.contents
  misses : call.op = .add ∨ call.op = .delete → store.addresses? call.set = none →
    (store.submit call).1 = .error ((store.faults.refusal? call).getD (.notFound call.set))

theorem addresses?_eq_none : store.addresses? set = none ↔ set ∉ store.contents.sets := by
  simp [addresses?]

theorem submit_spares (store : Store) (other : set ≠ call.set) :
    (store.submit call).2.contents.sets[set]? = store.contents.sets[set]? ∧
      (store.submit call).2.creations set = store.creations set := by
  cases submitted : store.submit call with
  | mk answer after =>
    cases answer with
    | error cause => rw [eq_of_refused submitted]; exact ⟨rfl, rfl⟩
    | ok _ =>
        have outside : call.set ∉ (Compl.compl {call.set} : Set String) := by simp
        exact Contents.perform_spares (perform_of_accepted submitted) outside set other

theorem takes (store : Store) (call : Call) : store.Takes call where
  spares set other := by
    obtain ⟨sets, creations⟩ := submit_spares store other
    exact ⟨by rw [addresses?, addresses?, sets], creations⟩
  refuses cause failed := by
    have refused : store.submit call = (.error cause, (store.submit call).2) := by rw [← failed]
    rw [eq_of_refused refused]
    rfl
  ensures set asked exists_set := by
    subst asked
    have present : set ∈ store.contents.sets := by
      rwa [Ne, addresses?_eq_none, not_not] at exists_set
    cases submitted : store.submit (.ensure set) with
    | mk answer after =>
      cases answer with
      | error cause => rw [eq_of_refused submitted]; rfl
      | ok _ =>
          have performed := perform_of_accepted submitted
          rw [Contents.perform] at performed
          split at performed
          · cases performed
          · rw [Contents.ensure, if_pos present] at performed
            exact (Except.ok.inj performed).symm
  misses updates absent := by
    cases refused : store.faults.refusal? call with
    | some cause => rw [submit_of_error (show store.answer call = _ by rw [answer, refused])]; rfl
    | none =>
        have missing : error? (store.contents.perform call) = some (.notFound call.set) := by
          rw [Contents.perform_error? updates, if_neg (addresses?_eq_none.mp absent)]
        have answered : store.answer call = .error (.notFound call.set) :=
          complaint?_eq_some.mp (by rw [complaint?, answer, refused]; exact missing)
        rw [submit_of_error answered]
        rfl

namespace Attempt

/-- Nothing was done to the set. -/
def Spares (set : String) (attempt : Attempt) : Prop := ∀ call, call.set = set → ¬attempt.Did call

theorem spares_of_other (other : call.set ≠ set) : Spares set ⟨store, call⟩ := by
  rintro _ named ⟨rfl, -⟩
  exact other named

theorem spares_of_refused {cause : Error} {after : Store}
    (refused : store.submit call = (.error cause, after)) : Spares set ⟨store, call⟩ := by
  rintro other - ⟨-, done⟩
  rw [answer, refused] at done
  cases done

theorem did_iff {after : Store} {other : Call} (accepted : store.submit call = (.ok (), after)) :
    Did other ⟨store, call⟩ ↔ call = other := by
  simp only [Did, answer, accepted, and_true]

theorem Spares.not_adds (spares : attempt.Spares set) (address : Address) :
    ¬attempt.Adds set address := by
  rintro ⟨addresses, did, -⟩
  exact spares _ rfl did

theorem Spares.not_deletes (spares : attempt.Spares set) (address : Address) :
    ¬attempt.Deletes set address := by
  rintro ⟨addresses, did, -⟩
  exact spares _ rfl did

theorem Spares.not_creates (spares : attempt.Spares set) : ¬attempt.Creates set :=
  fun creates => spares _ rfl creates.1

theorem Spares.not_removes (spares : attempt.Spares set) : ¬attempt.Removes set :=
  fun removes => spares _ rfl removes.1

end Attempt

theorem stands_cons : Stands set (attempt :: attempts) ↔
    attempt.Did (.ensure set) ∨ ¬attempt.Did (.destroy set) ∧ Stands set attempts :=
  since_cons

theorem keeps_cons (old : ¬attempt.Creates set) : Keeps set address (attempt :: attempts) ↔
    attempt.Adds set address ∨ ¬attempt.Deletes set address ∧ Keeps set address attempts := by
  rw [Keeps, List.takeWhile_cons_of_pos (by simpa using old), since_cons]
  rfl

theorem not_keeps_of_creates (new : attempt.Creates set) :
    ¬Keeps set address (attempt :: attempts) := by
  rw [Keeps, List.takeWhile_cons_of_neg (by simpa using new)]
  exact not_since_nil

/-- What the attempts tell of one set. -/
structure Tells (attempts : List Attempt) (store : Store) (set : String) : Prop where
  stands : set ∈ store.contents.sets ↔ Stands set attempts
  keeps : ∀ addresses, store.contents.sets[set]? = some addresses →
    ∀ address, address ∈ addresses ↔ Keeps set address attempts
  creations : store.creations set =
    attempts.countP (·.Removes set) + if set ∈ store.contents.sets then 1 else 0

section
variable {after : Store} (h : Tells attempts store set)
include h

theorem Tells.spared (spares : attempt.Spares set)
    (sets : after.contents.sets[set]? = store.contents.sets[set]?)
    (creations : after.creations set = store.creations set) :
    Tells (attempt :: attempts) after set := by
  have present : set ∈ after.contents.sets ↔ set ∈ store.contents.sets := by
    simp only [Std.ExtTreeMap.mem_iff_isSome_getElem?, sets]
  constructor
  · rw [present, h.stands, stands_cons]
    simp [spares (.ensure set) rfl, spares (.destroy set) rfl]
  · intro addresses found address
    rw [sets] at found
    rw [h.keeps addresses found, keeps_cons spares.not_creates]
    simp [spares.not_adds, spares.not_deletes]
  · rw [creations, h.creations, List.countP_cons_of_neg (by simpa using spares.not_removes)]
    simp only [present]

theorem Tells.ensure (accepted : store.submit (.ensure set) = (.ok (), after)) :
    Tells (⟨store, .ensure set⟩ :: attempts) after set := by
  have performed := perform_of_accepted accepted
  have sets : after.contents.sets[set]? = some ((store.contents.sets[set]?).getD ∅) := by
    simpa [Call.set, Call.effect] using Contents.perform_sets performed set
  have creations := Contents.perform_creations_getD performed set
  have present : set ∈ after.contents.sets := by simp [Std.ExtTreeMap.mem_iff_isSome_getElem?, sets]
  have kept : ¬Attempt.Removes set ⟨store, .ensure set⟩ := by
    simp [Attempt.Removes, Attempt.did_iff accepted]
  constructor
  · simp [present, stands_cons, Attempt.did_iff accepted]
  · intro addresses found address
    obtain rfl := Option.some.inj (sets.symm.trans found)
    -- An old set keeps what it held; a new one is empty, and what is known of an earlier set of
    -- its name is cut off by its creation.
    by_cases old : set ∈ store.contents.sets
    · have exists_old := Std.ExtTreeMap.getElem?_eq_some_getElem old
      have known : ¬Attempt.Creates set ⟨store, .ensure set⟩ := fun creates => creates.2 old
      rw [exists_old, Option.getD_some, h.keeps _ exists_old, keeps_cons known]
      simp [Attempt.Adds, Attempt.Deletes, Attempt.did_iff accepted]
    · have new : Attempt.Creates set ⟨store, .ensure set⟩ := ⟨(Attempt.did_iff accepted).mpr rfl, old⟩
      rw [Std.ExtTreeMap.getElem?_eq_none old, Option.getD_none]
      simp [not_keeps_of_creates new]
  · rw [List.countP_cons_of_neg (by simpa using kept), if_pos present]
    unfold Store.creations
    rw [creations, ← Store.creations, h.creations]
    by_cases old : set ∈ store.contents.sets <;> simp [old]

theorem Tells.update (accepted : store.submit call = (.ok (), after)) (named : call.set = set)
    (updates : call.op = .add ∨ call.op = .delete) :
    Tells (⟨store, call⟩ :: attempts) after set := by
  have performed := perform_of_accepted accepted
  have sets := Contents.perform_sets performed set
  have creations := Contents.perform_creations_getD performed set
  have present := Contents.perform_mem updates performed set
  have not_ensured : call ≠ .ensure set := by rintro rfl; simp [Call.op] at updates
  have not_destroyed : call ≠ .destroy set := by rintro rfl; simp [Call.op] at updates
  have known : ¬Attempt.Creates set ⟨store, call⟩ :=
    fun creates => not_ensured ((Attempt.did_iff accepted).mp creates.1)
  have kept : ¬Attempt.Removes set ⟨store, call⟩ :=
    fun removes => not_destroyed ((Attempt.did_iff accepted).mp removes.1)
  constructor
  · simp [present, h.stands, stands_cons, Attempt.did_iff accepted, not_ensured, not_destroyed]
  · intro now found address
    rw [sets, if_pos named.symm] at found
    rw [keeps_cons known]
    cases call with
    | ensure => simp [Call.op] at updates
    | destroy => simp [Call.op] at updates
    | add name addresses =>
        obtain rfl : name = set := named
        obtain ⟨old, exists_old, rfl⟩ := Option.map_eq_some_iff.mp found
        rw [mem_inserted, h.keeps old exists_old]
        simp [Attempt.Adds, Attempt.Deletes, Attempt.did_iff accepted]
    | delete name addresses =>
        obtain rfl : name = set := named
        obtain ⟨old, exists_old, rfl⟩ := Option.map_eq_some_iff.mp found
        rw [mem_erased, h.keeps old exists_old]
        simp [Attempt.Adds, Attempt.Deletes, Attempt.did_iff accepted]
  · rw [List.countP_cons_of_neg (by simpa using kept)]
    have counted : after.creations set = store.creations set := by
      simpa [Store.creations, not_ensured] using creations
    simpa [present] using counted.trans h.creations

theorem Tells.destroy (accepted : store.submit (.destroy set) = (.ok (), after)) :
    Tells (⟨store, .destroy set⟩ :: attempts) after set := by
  have performed := perform_of_accepted accepted
  have sets : after.contents.sets[set]? = none := by
    simpa [Call.set, Call.effect] using Contents.perform_sets performed set
  have creations := Contents.perform_creations_getD performed set
  have absent : set ∉ after.contents.sets := by simp [Std.ExtTreeMap.mem_iff_isSome_getElem?, sets]
  constructor
  · simp [absent, stands_cons, Attempt.did_iff accepted]
  · intro now found
    rw [sets] at found
    cases found
  · have counted : after.creations set = store.creations set := by
      simpa [Store.creations] using creations
    rw [counted, h.creations, List.countP_cons, if_neg absent]
    simp [Attempt.Removes, Attempt.did_iff accepted]

/-- Every attempt is told of, whatever it is about and however it ends. -/
theorem Tells.submit (call : Call) :
    Tells (⟨store, call⟩ :: attempts) (store.submit call).2 set := by
  cases submitted : store.submit call with
  | mk answer after =>
    cases answer with
    | error cause =>
        obtain rfl := eq_of_refused submitted
        exact h.spared (Attempt.spares_of_refused submitted) rfl rfl
    | ok _ =>
        by_cases named : call.set = set
        · cases call with
          | ensure name => obtain rfl : name = set := named; exact h.ensure submitted
          | add => exact h.update submitted named (.inl rfl)
          | delete => exact h.update submitted named (.inr rfl)
          | destroy name => obtain rfl : name = set := named; exact h.destroy submitted
        · have same := submit_spares store (Ne.symm named)
          rw [submitted] at same
          exact h.spared (Attempt.spares_of_other named) same.1 same.2

end

namespace Client

/-- A client makes one call, or what the store refuses changes. -/
theorem ask_cases (client : Client) (request : Request) :
    (∃ call given, client.ask request =
      { client.attempt call with handles := client.handles ++ given }) ∨
    ∃ faults, client.ask request = { client with store := client.store.withFaults faults } := by
  cases request with
  | ensure set =>
      cases answered : (client.store.submit (.ensure set)).1 with
      | ok _ => exact .inl ⟨.ensure set, [set], by simp only [ask, answered]⟩
      | error cause => exact .inl ⟨.ensure set, [], by simp [ask, answered, attempt]⟩
  | through handle use =>
      cases known : client.handles[handle]? with
      | some set => exact .inl ⟨use.on set, [], by simp [ask, known, attempt]⟩
      | none => exact .inr ⟨client.store.faults, by simp only [ask, known]; rfl⟩
  | failOn op => exact .inr ⟨_, rfl⟩
  | block op set => exact .inr ⟨_, rfl⟩
  | clearFaults => exact .inr ⟨{}, rfl⟩

/-- The attempts tell of every set, and they are what the journal holds. -/
structure Recalls (client : Client) : Prop where
  tells : ∀ set, Tells client.attempts client.store set
  journal : client.store.journal = client.attempts.map (·.entry)

theorem recalls_new : Recalls {} where
  tells set := {
    stands := by simp [Stands, not_since_nil]
    keeps := by simp
    creations := by simp [Store.creations] }
  journal := rfl

theorem Recalls.ask {client : Client} (recalls : client.Recalls) (request : Request) :
    (client.ask request).Recalls := by
  rcases ask_cases client request with ⟨call, given, asked⟩ | ⟨faults, asked⟩
  · rw [asked]
    exact ⟨fun set => (recalls.tells set).submit call,
      (submit_journal client.store call).trans (congrArg _ recalls.journal)⟩
  · rw [asked]
    exact ⟨fun set => ⟨(recalls.tells set).stands, (recalls.tells set).keeps,
      (recalls.tells set).creations⟩, recalls.journal⟩

theorem Recalls.run {client : Client} (recalls : client.Recalls) (requests : List Request) :
    (client.run requests).Recalls := by
  induction requests generalizing client with
  | nil => exact recalls
  | cons request requests ih => exact ih (recalls.ask request)

theorem Recalls.calls {client : Client} (recalls : client.Recalls) (op : Op) :
    client.store.calls op = client.attempts.countP (·.Reaches op) := by
  rw [Store.calls, recalls.journal, List.countP_map]
  refine List.countP_congr fun attempt _ => ?_
  simp [Attempt.entry, Attempt.Reaches, and_comm (a := _ = op)]

theorem handles_ask (client : Client) (request : Request) :
    client.handles <+: (client.ask request).handles := by
  rcases ask_cases client request with ⟨call, given, asked⟩ | ⟨faults, asked⟩
  · rw [asked]
    exact List.prefix_append _ _
  · have same : (client.ask request).handles = client.handles := by rw [asked]
    exact same ▸ List.prefix_rfl

theorem handles_run (client : Client) (requests : List Request) :
    client.handles <+: (client.run requests).handles := by
  induction requests generalizing client with
  | nil => exact List.prefix_rfl
  | cons request requests ih => exact (handles_ask client request).trans (ih _)

end Client

end Store

/-- What a store answers to is read off what was attempted on it, and handles are as good as
the names behind them. -/
theorem store_is_read_off_attempts (requests : List Request) :
    let client := Client.run {} requests
    (∀ set, client.store.addresses? set ≠ none ↔ Stands set client.attempts) ∧
    (∀ set addresses, client.store.addresses? set = some addresses →
      ∀ address, address ∈ addresses ↔ Keeps set address client.attempts) ∧
    (∀ set, client.store.creations set = client.attempts.countP (·.Removes set) +
      if client.store.addresses? set = none then 0 else 1) ∧
    (∃ names : List String, names.Nodup ∧ (∀ set, set ∈ names ↔ Stands set client.attempts) ∧
      client.store.size = names.length) ∧
    (∀ op, client.store.calls op = client.attempts.countP (·.Reaches op)) ∧
    (∀ later, client.handles <+: (client.run later).handles) ∧
    (∀ handle other use later, client.handles[handle]? = client.handles[other]? →
      client.run (.through handle use :: later) = client.run (.through other use :: later)) ∧
    ∀ call, client.store.Takes call := by
  intro client
  have recalls : client.Recalls := Client.recalls_new.run requests
  refine ⟨?stands, ?keeps, ?creations, ?size, recalls.calls, client.handles_run, ?handles,
    client.store.takes⟩
  case stands =>
    intro set
    rw [Ne, Store.addresses?_eq_none, not_not, (recalls.tells set).stands]
  case keeps =>
    intro set addresses found address
    obtain ⟨stored, exists_stored, rfl⟩ := Option.map_eq_some_iff.mp found
    rw [Std.ExtTreeSet.mem_toList, (recalls.tells set).keeps stored exists_stored]
  case creations =>
    intro set
    simp only [(recalls.tells set).creations, Store.addresses?_eq_none, ite_not]
  case size =>
    refine ⟨client.store.contents.sets.keys, Std.ExtTreeMap.nodup_keys, fun set => ?_,
      Std.ExtTreeMap.length_keys.symm⟩
    rw [Std.ExtTreeMap.mem_keys, (recalls.tells set).stands]
  case handles =>
    intro handle other use later same
    simp only [Client.run, List.foldl_cons, Client.ask, same]

/-- A set is destroyed and made again while its first handle is kept, and a second set is
destroyed. After that the first set cannot be destroyed, and nothing can be added. -/
def staleHandles : List Request :=
  [.ensure "ns1_v4", .through 0 (.add [.v4 ⟨10, 0, 0, 1⟩]), .through 0 .destroy, .ensure "ns1_v4",
    .through 0 (.add [.v4 ⟨10, 0, 0, 2⟩]), .ensure "ns2_v4", .through 2 .destroy,
    .block .destroy "ns1_v4", .failOn .add, .through 1 (.add [.v4 ⟨10, 0, 0, 1⟩]), .through 1 .destroy]

theorem store_is_read_off_attempts_stale :
    let client := Client.run {} staleHandles
    client.store.addresses? "ns1_v4" = some [.v4 ⟨10, 0, 0, 2⟩] ∧
    (∀ address, address ∈ [.v4 ⟨10, 0, 0, 2⟩] ↔ Keeps "ns1_v4" address client.attempts) ∧
    client.handles[0]? = client.handles[1]? ∧
    client.run [.through 0 (.delete [.v4 ⟨10, 0, 0, 2⟩])] =
      client.run [.through 1 (.delete [.v4 ⟨10, 0, 0, 2⟩])] ∧
    (client.store.submit (.destroy "ns1_v4")).1 = .error (.failure "ns1_v4" "blocked") ∧
    (client.store.submit (.destroy "ns1_v4")).2.contents = client.store.contents ∧
    (client.store.submit (.ensure "ns1_v4")).2.contents = client.store.contents ∧
    (client.store.submit (.delete "ns1_v4" [.v4 ⟨10, 0, 0, 2⟩])).2.creations "ns2_v4" =
      client.store.creations "ns2_v4" ∧
    client.store.addresses? "ns2_v4" = none ∧
    (client.store.submit (.delete "ns2_v4" [])).1 = .error (.notFound "ns2_v4") := by
  intro client
  have found : client.store.addresses? "ns1_v4" = some [.v4 ⟨10, 0, 0, 2⟩] := by decide +kernel
  have gone : client.store.addresses? "ns2_v4" = none := by decide +kernel
  have same : client.handles[0]? = client.handles[1]? := by decide +kernel
  have blocked : (client.store.submit (.destroy "ns1_v4")).1 =
      .error (.failure "ns1_v4" "blocked") := by decide +kernel
  have unrefused : client.store.faults.refusal? (.delete "ns2_v4" []) = none := by decide +kernel
  obtain ⟨-, keeps, -, -, -, -, handles, takes⟩ := store_is_read_off_attempts staleHandles
  refine ⟨found, keeps _ _ found, same, handles 0 1 _ [] same, blocked,
    (takes _).refuses _ blocked, (takes _).ensures _ rfl ?_, ((takes _).spares _ ?_).2, gone, ?_⟩
  · exact Option.ne_none_iff_exists'.mpr ⟨_, found⟩
  · decide
  · have missing := (takes (.delete "ns2_v4" [])).misses (.inr rfl) gone
    rw [missing]
    exact congrArg (fun refusal => Except.error (refusal.getD (.notFound "ns2_v4"))) unrefused

/-- What refuses a call is told before whether its set exists. -/
theorem injected_failure_hides_missing_set :
    let client := Client.run {} [.ensure "ns1_v4", .through 0 .destroy, .failOn .add]
    client.handles[0]? = some "ns1_v4" ∧ client.store.addresses? "ns1_v4" = none ∧
    (client.store.submit (.add "ns1_v4" [.v4 ⟨10, 0, 0, 1⟩])).1 =
      .error (.failure "ns1_v4" "injected Add failure") ∧
    (client.store.submit (.add "ns1_v4" [.v4 ⟨10, 0, 0, 1⟩])).1 ≠
      .error (.notFound "ns1_v4") := by
  decide +kernel

end PolicyAcl
