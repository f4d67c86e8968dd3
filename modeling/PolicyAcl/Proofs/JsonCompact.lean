import PolicyAcl.Proofs.JsonTokens

/-! Compact texts: every value has one, and each is a document. -/
namespace PolicyAcl.Json

mutual

/-- More may stand between the tokens. -/
theorem Spells.weaken {Gap Gap' : List Char → Prop} (weaker : ∀ gap, Gap gap → Gap' gap) :
    ∀ {value text}, Spells Gap value text → Spells Gap' value text
  | _, _, .null => .null
  | _, _, .boolTrue => .boolTrue
  | _, _, .boolFalse => .boolFalse
  | _, _, .number spells => .number spells
  | _, _, .string spells => .string spells
  | _, _, .noItems gap => .noItems (weaker _ gap)
  | _, _, .array spells => .array (spells.weaken weaker)
  | _, _, .noFields gap => .noFields (weaker _ gap)
  | _, _, .object spells => .object (spells.weaken weaker)

theorem SpellsItem.weaken {Gap Gap' : List Char → Prop} (weaker : ∀ gap, Gap gap → Gap' gap) :
    ∀ {value text}, SpellsItem Gap value text → SpellsItem Gap' value text
  | _, _, .between before spells after =>
    .between (weaker _ before) (spells.weaken weaker) (weaker _ after)

theorem SpellsItems.weaken {Gap Gap' : List Char → Prop} (weaker : ∀ gap, Gap gap → Gap' gap) :
    ∀ {items text}, SpellsItems Gap items text → SpellsItems Gap' items text
  | _, _, .last spells => .last (spells.weaken weaker)
  | _, _, .more spells later => .more (spells.weaken weaker) (later.weaken weaker)

theorem SpellsField.weaken {Gap Gap' : List Char → Prop} (weaker : ∀ gap, Gap gap → Gap' gap) :
    ∀ {field text}, SpellsField Gap field text → SpellsField Gap' field text
  | _, _, .named before name after spells =>
    .named (weaker _ before) name (weaker _ after) (spells.weaken weaker)

theorem SpellsFields.weaken {Gap Gap' : List Char → Prop} (weaker : ∀ gap, Gap gap → Gap' gap) :
    ∀ {fields text}, SpellsFields Gap fields text → SpellsFields Gap' fields text
  | _, _, .last spells => .last (spells.weaken weaker)
  | _, _, .more spells later => .more (spells.weaken weaker) (later.weaken weaker)

end

theorem Spells.document {value : Value} {text : List Char} (spells : Spells Compact value text) :
    Document value text := by
  have blank : ∀ gap, Compact gap → Blanks gap := by
    rintro _ rfl _ ⟨⟩
  have item : SpellsItem Blanks value ([] ++ (text ++ [])) :=
    .between (blank _ rfl) (spells.weaken blank) (blank _ rfl)
  rwa [List.nil_append, List.append_nil] at item

/-! Every value has a text. -/

theorem decimalValue_append (digits : List (Fin 10)) (digit : Fin 10) :
    decimalValue (digits ++ [digit]) = decimalValue digits * 10 + digit.val := by
  simp [decimalValue]

theorem exists_digits (n : Nat) (positive : 0 < n) :
    ∃ (first : Fin 10) (more : List (Fin 10)), first ≠ 0 ∧ decimalValue (first :: more) = n := by
  induction n using Nat.strongRecOn with
  | ind n ih =>
      by_cases small : n < 10
      · refine ⟨⟨n, small⟩, [], ?_, by simp [decimalValue]⟩
        simpa [Fin.ext_iff] using positive.ne'
      · obtain ⟨first, more, nonzero, value⟩ := ih (n / 10) (by omega) (by omega)
        refine ⟨first, more ++ [⟨n % 10, by omega⟩], nonzero, ?_⟩
        rw [← List.cons_append, decimalValue_append, value]
        exact Nat.div_add_mod' n 10

theorem exists_spellsWhole (n : Nat) : ∃ text, SpellsWhole n text := by
  rcases n.eq_zero_or_pos with rfl | positive
  · exact ⟨_, .zero⟩
  · obtain ⟨first, more, nonzero, rfl⟩ := exists_digits n positive
    exact ⟨_, .digits nonzero⟩

theorem exists_spellsExponent (exponent : Option Int) : ∃ text, SpellsExponent exponent text := by
  have digits (n : Nat) : ∃ digits, digits ≠ [] ∧ decimalValue digits = n := by
    rcases n.eq_zero_or_pos with rfl | positive
    · exact ⟨[0], by simp, rfl⟩
    · obtain ⟨first, more, -, value⟩ := exists_digits n positive
      exact ⟨first :: more, by simp, value⟩
  cases exponent with
  | none => exact ⟨_, .absent⟩
  | some exponent =>
      obtain ⟨digits, some, value⟩ := digits exponent.natAbs
      have marked : 'e' ∈ ['e', 'E'] := List.mem_cons_self
      rcases exponent.natAbs_eq with same | same
      · rw [same, ← value]
        exact ⟨_, .digits marked .absent some⟩
      · rw [same, ← value]
        exact ⟨_, .digits marked .minus some⟩

theorem exists_spellsNumber (number : Number) : ∃ text, SpellsNumber number text := by
  obtain ⟨negative, whole, fraction, exponent⟩ := number
  obtain ⟨wholes, spellsWhole⟩ := exists_spellsWhole whole
  obtain ⟨exponents, spellsExponent⟩ := exists_spellsExponent exponent
  obtain ⟨fractions, spellsFraction⟩ : ∃ text, SpellsFraction fraction text := by
    by_cases none : fraction = []
    · exact none ▸ ⟨_, .absent⟩
    · exact ⟨_, .digits none⟩
  exact ⟨_, .parts spellsWhole spellsFraction spellsExponent⟩

/-- The code of a control character. -/
theorem spellsUnit_control {n : Nat} (control : n < 0x20) :
    SpellsUnit n ['0', '0', Nat.digitChar (n / 16), Nat.digitChar (n % 16)] := by
  have zero : IsHexDigit 0 '0' := by decide
  have high : IsHexDigit (n / 16) (Nat.digitChar (n / 16)) := ⟨by omega, .inl rfl⟩
  have low : IsHexDigit (n % 16) (Nat.digitChar (n % 16)) := ⟨by omega, .inl rfl⟩
  have digits := SpellsUnit.digits zero zero high low
  rwa [Nat.zero_mul, Nat.zero_add, Nat.div_add_mod'] at digits

theorem exists_spellsString (chars : List Char) : ∃ body, SpellsString chars body := by
  induction chars with
  | nil => exact ⟨_, .done⟩
  | cons c chars ih =>
      obtain ⟨body, spells⟩ := ih
      by_cases quote : c = '"'
      · have listed : ('"', c) ∈ escapes := by simp [escapes, quote]
        exact ⟨_, .escaped listed spells⟩
      by_cases backslash : c = '\\'
      · have listed : ('\\', c) ∈ escapes := by simp [escapes, backslash]
        exact ⟨_, .escaped listed spells⟩
      by_cases control : c.toNat < 0x20
      · have unit := SpellsString.unit (spellsUnit_control control) (by unfold HighSurrogate; omega)
          (by unfold LowSurrogate; omega) spells
        rw [Char.ofNat_toNat] at unit
        exact ⟨_, unit⟩
      · exact ⟨_, .raw quote backslash (Nat.le_of_not_lt control) spells⟩

mutual

/-- Every value has a text, in which nothing stands between the tokens if that is allowed. -/
theorem exists_spells {Gap : List Char → Prop} (none : Gap []) : ∀ value, ∃ text, Spells Gap value text
  | .null => ⟨_, .null⟩
  | .bool true => ⟨_, .boolTrue⟩
  | .bool false => ⟨_, .boolFalse⟩
  | .number number => (exists_spellsNumber number).imp fun _ spells => .number spells
  | .string string => by
    obtain ⟨body, spells⟩ := exists_spellsString string.toList
    have spelled : Spells Gap (.string (.ofList string.toList)) _ := .string spells
    rw [String.ofList_toList] at spelled
    exact ⟨_, spelled⟩
  | .array items => by
    obtain rfl | ⟨text, spells⟩ := exists_spellsItems none items
    · exact ⟨_, .noItems none⟩
    · exact ⟨_, .array spells⟩
  | .object fields => by
    obtain rfl | ⟨text, spells⟩ := exists_spellsFields none fields
    · exact ⟨_, .noFields none⟩
    · exact ⟨_, .object spells⟩

theorem exists_spellsItems {Gap : List Char → Prop} (none : Gap []) :
    ∀ items, items = [] ∨ ∃ text, SpellsItems Gap items text
  | [] => .inl rfl
  | item :: items => by
    obtain ⟨text, spells⟩ := exists_spells none item
    have spelled := SpellsItem.between none spells none
    obtain rfl | ⟨later, spells'⟩ := exists_spellsItems none items
    · exact .inr ⟨_, .last spelled⟩
    · exact .inr ⟨_, .more spelled spells'⟩

theorem exists_spellsField {Gap : List Char → Prop} (none : Gap []) :
    ∀ field, ∃ text, SpellsField Gap field text
  | (name, value) => by
    obtain ⟨text, spells⟩ := exists_spells none value
    obtain ⟨body, spells'⟩ := exists_spellsString name.toList
    have spelled := SpellsField.named none spells' none (.between none spells none)
    rw [String.ofList_toList] at spelled
    exact ⟨_, spelled⟩

theorem exists_spellsFields {Gap : List Char → Prop} (none : Gap []) :
    ∀ fields, fields = [] ∨ ∃ text, SpellsFields Gap fields text
  | [] => .inl rfl
  | field :: fields => by
    obtain ⟨text, spells⟩ := exists_spellsField none field
    obtain rfl | ⟨later, spells'⟩ := exists_spellsFields none fields
    · exact .inr ⟨_, .last spells⟩
    · exact .inr ⟨_, .more spells spells'⟩

end

end PolicyAcl.Json
