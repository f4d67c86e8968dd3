import Mathlib.Logic.Function.Basic
import PolicyAcl.Family
import PolicyAcl.Store

/-! What calls do to the sets of a store, one set at a time. A call changes the
set it names as `Call.effect` says, and no other. -/
namespace PolicyAcl

theorem Family.suffix_length (family : Family) : family.suffix.toList.length = 3 := by
  cases family <;> rfl

theorem Family.suffix_inj {family other : Family} (h : family.suffix = other.suffix) :
    family = other := by
  revert h
  cases family <;> cases other <;> decide

theorem Family.setName_inj {family other : Family} {base name : String} :
    family.setName base = other.setName name ↔ family = other ∧ base = name := by
  constructor
  · intro same
    have lists := congrArg String.toList same
    simp only [setName, String.toList_append] at lists
    obtain ⟨bases, suffixes⟩ := List.append_inj' lists (by rw [suffix_length, suffix_length])
    exact ⟨suffix_inj (String.toList_inj.mp suffixes), String.toList_inj.mp bases⟩
  · rintro ⟨rfl, rfl⟩
    rfl

theorem Family.setName_ne_empty (family : Family) (base : String) : family.setName base ≠ "" := by
  intro empty
  have lists := congrArg (List.length ∘ String.toList) empty
  simp [setName, suffix_length] at lists

namespace Store

/-- What a call that succeeds makes of the set it names; an absent set is `none`. -/
def Call.effect : Call → Option AddressSet → Option AddressSet
  | .ensure _, old => some (old.getD ∅)
  | .add _ addresses, old => old.map fun set => addresses.foldl (·.insert ·) set
  | .delete _ addresses, old => old.map fun set => addresses.foldl (·.erase ·) set
  | .destroy _, _ => none

/-- The error of an answer, if it is one. -/
def error? {α : Type} : Except Error α → Option Error
  | .ok _ => none
  | .error cause => some cause

namespace Contents

variable {contents after : Contents} {call : Call}

theorem ensure_sets (contents : Contents) (name set : String) :
    (contents.ensure name).sets[set]? =
      if set = name then some ((contents.sets[set]?).getD ∅) else contents.sets[set]? := by
  unfold ensure
  by_cases present : name ∈ contents.sets
  · by_cases same : set = name
    · subst same
      rw [if_pos present, if_pos rfl, Std.ExtTreeMap.getElem?_eq_some_getElem present]
      rfl
    · rw [if_pos present, if_neg same]
  · by_cases same : set = name
    · subst same
      rw [if_neg present, if_pos rfl, Std.ExtTreeMap.getElem?_insert_self,
        Std.ExtTreeMap.getElem?_eq_none present]
      rfl
    · rw [if_neg present, if_neg same, Std.ExtTreeMap.getElem?_insert, if_neg]
      simpa using Ne.symm same

theorem update_sets {name : String} {change : AddressSet → AddressSet}
    (h : contents.update name change = .ok after) (set : String) :
    after.sets[set]? =
      if set = name then (contents.sets[set]?).map change else contents.sets[set]? := by
  unfold update at h
  split at h
  next old found =>
    cases h
    by_cases same : set = name
    · subst same
      rw [if_pos rfl, Std.ExtTreeMap.getElem?_insert_self, found, Option.map_some]
    · rw [if_neg same, Std.ExtTreeMap.getElem?_insert, if_neg]
      simpa using Ne.symm same
  next => cases h

theorem perform_sets (h : contents.perform call = .ok after) (set : String) :
    after.sets[set]? =
      if set = call.set then call.effect contents.sets[set]? else contents.sets[set]? := by
  cases call with
  | ensure name =>
      simp only [perform] at h
      split at h
      · cases h
      · cases h
        exact ensure_sets contents name set
  | add name addresses => exact update_sets h set
  | delete name addresses => exact update_sets h set
  | destroy name =>
      cases h
      by_cases same : set = name
      · subst same
        simp [Call.set, Call.effect]
      · simp [Call.set, Ne.symm same, same, Std.ExtTreeMap.getElem?_erase]

theorem update_error? (name : String) (change : AddressSet → AddressSet) :
    error? (contents.update name change) =
      if name ∈ contents.sets then none else some (.notFound name) := by
  unfold update
  cases found : contents.sets[name]? with
  | none => simp [error?, Std.ExtTreeMap.mem_iff_isSome_getElem?, found]
  | some old => simp [error?, Std.ExtTreeMap.mem_iff_isSome_getElem?, found]

theorem perform_error? (updates : call.op = .add ∨ call.op = .delete) :
    error? (contents.perform call) =
      if call.set ∈ contents.sets then none else some (.notFound call.set) := by
  cases call with
  | ensure => simp [Call.op] at updates
  | destroy => simp [Call.op] at updates
  | add set addresses => exact update_error? set _
  | delete set addresses => exact update_error? set _

theorem perform_mem (updates : call.op = .add ∨ call.op = .delete)
    (h : contents.perform call = .ok after) (set : String) :
    set ∈ after.sets ↔ set ∈ contents.sets := by
  simp only [Std.ExtTreeMap.mem_iff_isSome_getElem?, perform_sets h]
  split
  · cases call <;> simp [Call.op] at updates <;> simp [Call.effect]
  · rfl

theorem perform_of_mem (updates : call.op = .add ∨ call.op = .delete)
    (present : call.set ∈ contents.sets) : ∃ after, contents.perform call = .ok after := by
  have none : error? (contents.perform call) = _ := perform_error? updates
  rw [if_pos present] at none
  cases performed : contents.perform call with
  | ok after => exact ⟨after, rfl⟩
  | error cause =>
      rw [performed] at none
      cases none

theorem update_creations {name : String} {change : AddressSet → AddressSet}
    (h : contents.update name change = .ok after) : after.creations = contents.creations := by
  unfold update at h
  split at h
  next => cases h; rfl
  next => cases h

theorem perform_creations (updates : call.op = .add ∨ call.op = .delete)
    (h : contents.perform call = .ok after) : after.creations = contents.creations := by
  cases call with
  | ensure => simp [Call.op] at updates
  | destroy => simp [Call.op] at updates
  | add set addresses => exact update_creations h
  | delete set addresses => exact update_creations h

/-- The set that holds the addresses of a family for a base name, if it exists. -/
def half (contents : Contents) (base : String) (family : Family) : Option AddressSet :=
  contents.sets[family.setName base]?

theorem half_perform {base : String} {family : Family} (h : contents.perform call = .ok after)
    (named : call.set = family.setName base) :
    after.half base = Function.update (contents.half base) family
      (call.effect (contents.half base family)) := by
  funext other
  unfold half
  rw [perform_sets h, named]
  by_cases same : other = family
  · subst same
    rw [if_pos rfl, Function.update_self]
  · rw [if_neg (fun names => same (Family.setName_inj.mp names).1), Function.update_of_ne same]

theorem half_perform_other {base : String} (h : contents.perform call = .ok after)
    (foreign : ∀ family, call.set ≠ Family.setName family base) :
    after.half base = contents.half base := by
  funext family
  unfold half
  rw [perform_sets h, if_neg (fun same => foreign family same.symm)]

end Contents

def withFaults (store : Store) (faults : Faults) : Store := { store with faults }

@[simp] theorem withFaults_contents (store : Store) (faults : Faults) :
    (store.withFaults faults).contents = store.contents := rfl
@[simp] theorem withFaults_journal (store : Store) (faults : Faults) :
    (store.withFaults faults).journal = store.journal := rfl
@[simp] theorem withFaults_faults (store : Store) (faults : Faults) :
    (store.withFaults faults).faults = faults := rfl

theorem answer_ok_perform {store : Store} {call : Call} {contents : Contents}
    (h : store.answer call = .ok contents) : store.contents.perform call = .ok contents := by
  unfold answer at h
  split at h
  · cases h
  · exact h

theorem answer_faultless {store : Store} (faultless : store.faults = {}) (call : Call) :
    store.answer call = store.contents.perform call := by
  simp [answer, faultless, Faults.refusal?, Faults.blocks]

/-- The error that a call would end with, if it would fail. -/
def complaint? (store : Store) (call : Call) : Option Error := error? (store.answer call)

theorem complaint?_eq_none {store : Store} {call : Call} :
    store.complaint? call = none ↔ ∃ contents, store.answer call = .ok contents := by
  unfold complaint?
  cases store.answer call <;> simp [error?]

theorem complaint?_eq_some {store : Store} {call : Call} {cause : Error} :
    store.complaint? call = some cause ↔ store.answer call = .error cause := by
  unfold complaint?
  cases store.answer call <;> simp [error?]

/-- Whether adding or deleting fails depends on the faults and on what sets there are. -/
theorem complaint?_congr {store other : Store} {call : Call}
    (updates : call.op = .add ∨ call.op = .delete) (faults : store.faults = other.faults)
    (sets : ∀ set, set ∈ store.contents.sets ↔ set ∈ other.contents.sets) :
    store.complaint? call = other.complaint? call := by
  unfold complaint? answer
  rw [faults]
  cases other.faults.refusal? call with
  | some cause => rfl
  | none => simp only [Contents.perform_error? updates, sets]

theorem submit_of_ok {store : Store} {call : Call} {contents : Contents}
    (h : store.answer call = .ok contents) :
    store.submit call = (.ok (), { store.record call none with contents }) := by
  simp only [submit, h]

theorem submit_of_error {store : Store} {call : Call} {cause : Error}
    (h : store.answer call = .error cause) :
    store.submit call = (.error cause, store.record call (some cause)) := by
  simp only [submit, h]

theorem submit_half_other {base : String} (store : Store) {call : Call}
    (foreign : ∀ family, call.set ≠ Family.setName family base) :
    (store.submit call).2.contents.half base = store.contents.half base := by
  cases h : store.answer call with
  | ok contents =>
      rw [submit_of_ok h]
      exact Contents.half_perform_other (answer_ok_perform h) foreign
  | error cause =>
      rw [submit_of_error h]
      rfl

end Store

end PolicyAcl
