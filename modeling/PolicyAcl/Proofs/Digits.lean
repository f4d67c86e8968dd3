import Mathlib.Data.List.Infix
import PolicyAcl.Digits

/-! Numbers read back from the digits they are written in, whatever the base. -/
namespace PolicyAcl

variable {base : Nat}

theorem digitValue?_digitChar {digit : Nat} (small : digit < base) (upper : base ≤ 16) :
    digitValue? base digit.digitChar = some digit := by
  have all : ∀ base ≤ 16, ∀ digit < base, digitValue? base digit.digitChar = some digit := by
    decide +kernel
  exact all base upper digit small

theorem digitsValue?_append (front back : List Char) (n : Nat) :
    digitsValue? base n (front ++ back) =
      (digitsValue? base n front).bind fun m => digitsValue? base m back := by
  induction front generalizing n with
  | nil => rfl
  | cons letter front ih =>
      simp only [List.cons_append, digitsValue?]
      cases digitValue? base letter with
      | none => rfl
      | some digit => exact ih _

theorem digitsValue?_toDigits (lower : 1 < base) (upper : base ≤ 16) (n : Nat) :
    digitsValue? base 0 (Nat.toDigits base n) = some n := by
  induction n using Nat.strong_induction_on with
  | _ n ih =>
    by_cases small : n < base
    · rw [Nat.toDigits_of_lt_base small]
      simp [digitsValue?, digitValue?_digitChar small upper]
    · have split := Nat.toDigits_of_base_le lower (Nat.le_of_not_lt small)
      have fewer : n / base < n := Nat.div_lt_self (by omega) lower
      have last : n % base < base := Nat.mod_lt n (by omega)
      rw [split, digitsValue?_append, ih (n / base) fewer]
      simp only [Option.bind_some, digitsValue?, digitValue?_digitChar last upper]
      rw [Nat.mul_comm, Nat.div_add_mod]

/-- A text that is read as digits has no letter that is none. -/
theorem not_mem_of_digitsValue? {letter : Char} (strange : digitValue? base letter = none)
    {text : List Char} {n m : Nat} (read : digitsValue? base n text = some m) : letter ∉ text := by
  induction text generalizing n with
  | nil => exact List.not_mem_nil
  | cons first text ih =>
      rw [digitsValue?, Option.bind_eq_some_iff] at read
      obtain ⟨digit, value, read⟩ := read
      refine List.not_mem_cons_of_ne_of_not_mem ?_ (ih read)
      rintro rfl
      rw [strange] at value
      cases value

theorem not_mem_toDigits {letter : Char} (strange : digitValue? base letter = none)
    (lower : 1 < base) (upper : base ≤ 16) (n : Nat) : letter ∉ Nat.toDigits base n :=
  not_mem_of_digitsValue? strange (digitsValue?_toDigits lower upper n)

end PolicyAcl
