import Mathlib.Data.List.Forall2

/-! Words that are read without regard to case. The letters of the ASCII alphabet have two
cases, and every other letter is only itself. -/
namespace PolicyAcl

/-- A letter is given as it is, or as a capital, which stands 32 places in front of it. -/
def InEitherCase (given letter : Char) : Prop :=
  given = letter ∨ ('a'.toNat ≤ letter.toNat ∧ letter.toNat ≤ 'z'.toNat) ∧
    given.toNat + 32 = letter.toNat

instance (given letter : Char) : Decidable (InEitherCase given letter) :=
  inferInstanceAs (Decidable (_ ∨ _))

/-- A text spells a word if it has its letters, each in one of its cases. -/
def SpellsWord (text word : List Char) : Prop := List.Forall₂ InEitherCase text word

instance (text word : List Char) : Decidable (SpellsWord text word) :=
  inferInstanceAs (Decidable (List.Forall₂ _ _ _))

theorem toNat_toLower (letter : Char) :
    letter.toLower.toNat =
      if 'A'.toNat ≤ letter.toNat ∧ letter.toNat ≤ 'Z'.toNat then letter.toNat + 32
      else letter.toNat := by
  unfold Char.toLower
  simp only [ge_iff_le, UInt32.le_iff_toNat_le, Char.toNat_val]
  split
  next capital =>
    have upper : letter.toNat ≤ 90 := capital.2
    have moved : (letter.val + 32).toNat = (letter.toNat + 32) % 4294967296 := UInt32.toNat_add _ _
    change (letter.val + 32).toNat = letter.toNat + 32
    omega
  next => rfl

theorem isLower_iff {letter : Char} :
    letter.isLower = true ↔ 'a'.toNat ≤ letter.toNat ∧ letter.toNat ≤ 'z'.toNat := by
  change (decide ('a'.val ≤ letter.val) && decide (letter.val ≤ 'z'.val)) = true ↔ _
  simp only [Bool.and_eq_true, decide_eq_true_eq, UInt32.le_iff_toNat_le, Char.toNat_val]

theorem toLower_eq_iff {given letter : Char} (small : letter.isLower = true) :
    given.toLower = letter ↔ InEitherCase given letter := by
  have same : given = letter ↔ given.toNat = letter.toNat := Char.toNat_inj.symm
  rw [InEitherCase, and_iff_right (isLower_iff.mp small), same, ← Char.toNat_inj, toNat_toLower]
  obtain ⟨lower, upper⟩ : 97 ≤ letter.toNat ∧ letter.toNat ≤ 122 := isLower_iff.mp small
  change (if 65 ≤ given.toNat ∧ given.toNat ≤ 90 then _ else _) = _ ↔ _
  split <;> omega

/-- A word of small letters is spelled by the texts that fold to it. -/
theorem spellsWord_iff {text word : List Char} (small : word.all Char.isLower = true) :
    SpellsWord text word ↔ text.map Char.toLower = word := by
  rw [← List.forall₂_eq_eq_eq, List.forall₂_map_left_iff, SpellsWord]
  induction word generalizing text with
  | nil => simp
  | cons letter word ih =>
      rw [List.all_cons, Bool.and_eq_true] at small
      obtain ⟨first, rest⟩ := small
      cases text with
      | nil => simp
      | cons given text =>
          rw [List.forall₂_cons, List.forall₂_cons, ih rest, toLower_eq_iff first]

end PolicyAcl
