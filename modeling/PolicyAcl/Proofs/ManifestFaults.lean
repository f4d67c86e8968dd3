import Mathlib.Data.List.Forall2
import PolicyAcl.Manifest.Conversion

/-! Which fault of an object is reported. A list is converted one item after another, so it
fails as its first item does that cannot be converted. -/
namespace PolicyAcl.Manifest

/-- A conversion fails, and this is what is said of it: the kind of the fault, and what is
wrong. -/
def Reports {α : Type} (converted : Except Fault α) (kind : Fault.Kind) (detail : String) : Prop :=
  ∃ fault, converted = .error fault ∧ fault.kind = kind ∧ fault.detail = detail

variable {α β ε : Type} {convert : α → Except ε β} {item : α} {items : List α}
  {results : List β} {error : ε}

/-- An item fails with this error, and all items before it convert. -/
def FirstFailure (convert : α → Except ε β) (items : List α) (error : ε) : Prop :=
  ∃ before item after, items = before ++ item :: after ∧
    (∀ earlier ∈ before, ∃ result, convert earlier = .ok result) ∧ convert item = .error error

theorem bind_eq_ok {γ δ : Type} {work : Except ε γ} {rest : γ → Except ε δ} {result : δ} :
    (work >>= rest) = .ok result ↔ ∃ value, work = .ok value ∧ rest value = .ok result := by
  cases work <;> simp [bind, Except.bind]

theorem mapM_eq_ok :
    items.mapM convert = .ok results ↔
      List.Forall₂ (fun item result => convert item = .ok result) items results := by
  induction items generalizing results with
  | nil => simp [pure, Except.pure, eq_comm]
  | cons item items ih =>
      rw [List.forall₂_cons_left_iff, List.mapM_cons]
      simp only [bind_eq_ok, ih]
      constructor
      · rintro ⟨result, converted, rest, others, same⟩
        exact ⟨result, rest, converted, others, (Except.ok.inj same).symm⟩
      · rintro ⟨result, rest, converted, others, rfl⟩
        exact ⟨result, converted, rest, others, rfl⟩

/-- The first failure is that of the first item, unless it converts. -/
theorem firstFailure_cons :
    FirstFailure convert (item :: items) error ↔
      convert item = .error error ∨
        (∃ result, convert item = .ok result) ∧ FirstFailure convert items error := by
  constructor
  · rintro ⟨before, faulty, after, whole, converted, failed⟩
    cases before with
    | nil =>
        obtain ⟨rfl, -⟩ := List.cons.inj whole
        exact .inl failed
    | cons first before =>
        obtain ⟨rfl, rest⟩ := List.cons.inj whole
        obtain ⟨converts, earlier⟩ := List.forall_mem_cons.mp converted
        exact .inr ⟨converts, before, faulty, after, rest, earlier, failed⟩
  · rintro (failed | ⟨converts, before, faulty, after, rfl, earlier, failed⟩)
    · exact ⟨[], item, items, rfl, by simp, failed⟩
    · exact ⟨item :: before, faulty, after, rfl, List.forall_mem_cons.mpr ⟨converts, earlier⟩,
        failed⟩

theorem mapM_eq_error : items.mapM convert = .error error ↔ FirstFailure convert items error := by
  induction items with
  | nil => simp [FirstFailure, pure, Except.pure]
  | cons item items ih =>
      rw [firstFailure_cons, List.mapM_cons, ← ih]
      cases convert item with
      | error first => simp [bind, Except.bind]
      | ok result => cases items.mapM convert <;> simp [bind, Except.bind, pure, Except.pure]

theorem exists_firstFailure :
    (∃ error, FirstFailure convert items error) ↔
      ∃ item ∈ items, ∃ error, convert item = .error error := by
  constructor
  · rintro ⟨error, before, item, after, rfl, -, failed⟩
    exact ⟨item, by simp, error, failed⟩
  · rintro ⟨item, member, error, failed⟩
    induction items with
    | nil => cases member
    | cons first items ih =>
        cases converted : convert first with
        | error earlier => exact ⟨earlier, firstFailure_cons.mpr (.inl converted)⟩
        | ok result =>
            rcases List.mem_cons.mp member with rfl | later
            · rw [converted] at failed
              cases failed
            · obtain ⟨earlier, found⟩ := ih later
              exact ⟨earlier, firstFailure_cons.mpr (.inr ⟨⟨result, converted⟩, found⟩)⟩

end PolicyAcl.Manifest
