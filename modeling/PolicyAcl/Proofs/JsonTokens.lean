import Mathlib.Data.List.TakeWhile
import Mathlib.Tactic.Common
import PolicyAcl.Proofs.JsonGrammar

/-! Blanks, numbers and strings: what is read of each is what the grammar spells, and what the
grammar spells is read. A number is read up to a character that cannot go on with it, and a
string up to its quote. -/
namespace PolicyAcl.Json

variable {text rest : List Char}

theorem isBlank_iff {c : Char} : isBlank c = true ↔ c ∈ [' ', '\t', '\n', '\r'] := by
  simp [isBlank, or_assoc]

theorem skipBlanks_split (text : List Char) :
    ∃ blanks, Blanks blanks ∧ text = blanks ++ skipBlanks text := by
  refine ⟨text.takeWhile isBlank, ?_, List.takeWhile_append_dropWhile.symm⟩
  intro c member
  exact isBlank_iff.mp (List.mem_takeWhile_imp member)

theorem skipBlanks_append {blanks : List Char} (blank : Blanks blanks) (text : List Char) :
    skipBlanks (blanks ++ text) = skipBlanks text :=
  List.dropWhile_append_of_pos fun c member => isBlank_iff.mpr (blank c member)

theorem skipBlanks_cons {c : Char} (visible : isBlank c = false) (text : List Char) :
    skipBlanks (c :: text) = c :: text := by
  rw [skipBlanks, List.dropWhile_cons_of_neg (by simp [visible])]

theorem skipBlanks_eq_nil : skipBlanks text = [] ↔ Blanks text := by
  rw [skipBlanks, List.dropWhile_eq_nil_iff]
  exact forall₂_congr fun c _ => isBlank_iff

theorem skipBlanks_skipBlanks (text : List Char) : skipBlanks (skipBlanks text) = skipBlanks text := by
  obtain ⟨blanks, blank, split⟩ := skipBlanks_split text
  conv_rhs => rw [split, skipBlanks_append blank]

/-! Numbers. -/

theorem digit?_eq_some {c : Char} {digit : Fin 10} : digit? c = some digit ↔ c = digitChar digit := by
  have small := digit.isLt
  have code : (digitChar digit).toNat = 48 + digit.val := by
    rw [digitChar, Nat.toNat_digitChar_of_lt_ten small]
  have lower : '0'.toNat = 48 := rfl
  have upper : '9'.toNat = 57 := rfl
  rw [← Char.toNat_inj, code, digit?]
  split
  · rw [Option.some.injEq, Fin.ext_iff]
    dsimp only
    omega
  · simp only [reduceCtorEq, false_iff]
    omega

theorem digit?_digitChar (digit : Fin 10) : digit? (digitChar digit) = some digit :=
  digit?_eq_some.mpr rfl

theorem digitChar_ne {c : Char} (other : digit? c = none) (digit : Fin 10) : digitChar digit ≠ c := by
  rintro rfl
  simp [digit?_digitChar] at other

theorem readDigits_split (text : List Char) :
    text = (readDigits text).1.map digitChar ++ (readDigits text).2 := by
  induction text with
  | nil => rfl
  | cons c cs ih =>
      rw [readDigits]
      split
      next digit found =>
        rw [List.map_cons, List.cons_append, ← ih, digit?_eq_some.mp found]
      next => rfl

/-- No digit comes next. -/
def Digitless (rest : List Char) : Prop := ∀ c ∈ rest.head?, digit? c = none

theorem readDigits_append (digits : List (Fin 10)) (ended : Digitless rest) :
    readDigits (digits.map digitChar ++ rest) = (digits, rest) := by
  induction digits with
  | nil =>
      cases rest with
      | nil => rfl
      | cons c cs => simp [readDigits, ended c rfl]
  | cons digit digits ih => simp [readDigits, digit?_digitChar, ih]

/-- Nothing comes next that a number could go on with. -/
def EndsNumber (rest : List Char) : Prop := ∀ c ∈ rest.head?, digit? c = none ∧ c ∉ ['.', 'e', 'E']

theorem EndsNumber.digitless (ended : EndsNumber rest) : Digitless rest :=
  fun c next => (ended c next).1

theorem readWhole?_sound {whole : Nat} (read : readWhole? text = some (whole, rest)) :
    ∃ spelled, text = spelled ++ rest ∧ SpellsWhole whole spelled := by
  unfold readWhole? at read
  split at read
  next =>
    obtain ⟨rfl, rfl⟩ := read
    exact ⟨_, rfl, .zero⟩
  next nonzero =>
    have split := readDigits_split text
    split at read
    next => cases read
    next digits left present found =>
      obtain ⟨rfl, rfl⟩ := read
      rw [found] at split
      cases digits with
      | nil => exact (present rfl).elim
      | cons first more =>
          refine ⟨_, split, .digits ?_⟩
          rintro rfl
          exact nonzero _ split

theorem readWhole?_complete {whole : Nat} {spelled : List Char} (spells : SpellsWhole whole spelled)
    (ended : Digitless rest) : readWhole? (spelled ++ rest) = some (whole, rest) := by
  cases spells with
  | zero => rfl
  | @digits first more nonzero =>
      have other : ∀ left, (first :: more).map digitChar ++ rest ≠ '0' :: left := by
        intro left same
        rw [List.map_cons, List.cons_append, List.cons.injEq] at same
        refine nonzero (Option.some.inj ?_)
        rw [← digit?_digitChar first, same.1]
        rfl
      rw [readWhole?, readDigits_append _ ended]
      exact other

theorem readFraction?_sound {digits : List (Fin 10)}
    (read : readFraction? text = some (digits, rest)) :
    ∃ spelled, text = spelled ++ rest ∧ SpellsFraction digits spelled := by
  unfold readFraction? at read
  split at read
  next after =>
    have split := readDigits_split after
    split at read
    next => cases read
    next found left present same =>
      obtain ⟨rfl, rfl⟩ := read
      rw [same] at split
      exact ⟨'.' :: digits.map digitChar, congrArg _ split, .digits present⟩
  next =>
    obtain ⟨rfl, rfl⟩ := read
    exact ⟨[], rfl, .absent⟩

theorem readFraction?_complete {digits : List (Fin 10)} {spelled : List Char}
    (spells : SpellsFraction digits spelled) (ended : Digitless rest) (pointless : rest.head? ≠ some '.') :
    readFraction? (spelled ++ rest) = some (digits, rest) := by
  cases spells with
  | absent =>
      rw [List.nil_append, readFraction?]
      rintro left rfl
      exact pointless rfl
  | digits present =>
      rw [List.cons_append, readFraction?, readDigits_append _ ended]
      cases digits with
      | nil => exact absurd rfl present
      | cons first more => rfl

theorem readExponent?_sound {exponent : Option Int}
    (read : readExponent? text = some (exponent, rest)) :
    ∃ spelled, text = spelled ++ rest ∧ SpellsExponent exponent spelled := by
  have sign (after : List Char) : ∃ sign, after = sign ++ (readSign after).2 ∧
      SpellsSign (readSign after).1 sign := by
    unfold readSign
    split
    · exact ⟨['-'], rfl, .minus⟩
    · exact ⟨['+'], rfl, .plus⟩
    · exact ⟨[], rfl, .absent⟩
  unfold readExponent? at read
  split at read
  next mark after =>
    split at read
    next marked =>
      obtain ⟨sign, signed, signs⟩ := sign after
      have split := readDigits_split (readSign after).2
      dsimp only at read
      split at read
      next => cases read
      next digits left present same =>
        obtain ⟨rfl, rfl⟩ := read
        rw [same] at split
        refine ⟨mark :: (sign ++ digits.map digitChar), ?_, .digits (by simpa using marked) signs present⟩
        rw [List.cons_append, List.append_assoc, ← split, ← signed]
    next =>
      obtain ⟨rfl, rfl⟩ := read
      exact ⟨[], rfl, .absent⟩
  next =>
    obtain ⟨rfl, rfl⟩ := read
    exact ⟨[], rfl, .absent⟩

theorem readSign_complete {negative : Bool} {sign : List Char} (spells : SpellsSign negative sign)
    (digit : Fin 10) :
    readSign (sign ++ digitChar digit :: rest) = (negative, digitChar digit :: rest) := by
  cases spells with
  | absent =>
      have minus : digitChar digit ≠ '-' := digitChar_ne (by decide) digit
      have plus : digitChar digit ≠ '+' := digitChar_ne (by decide) digit
      simp [readSign, minus, plus]
  | plus => rfl
  | minus => rfl

theorem readExponent?_complete {exponent : Option Int} {spelled : List Char}
    (spells : SpellsExponent exponent spelled) (ended : EndsNumber rest) :
    readExponent? (spelled ++ rest) = some (exponent, rest) := by
  cases spells with
  | absent =>
      cases rest with
      | nil => rfl
      | cons c cs =>
          have unmarked : ¬(c = 'e' ∨ c = 'E') := by
            have apart := (ended c rfl).2
            simp_all
          simp only [List.nil_append, readExponent?, if_neg unmarked]
  | @digits mark negative sign digits marked signs present =>
      obtain ⟨first, more, rfl⟩ := List.exists_cons_of_ne_nil present
      have marked : mark = 'e' ∨ mark = 'E' := by simpa using marked
      have read := readDigits_append (first :: more) ended.digitless
      rw [List.map_cons, List.cons_append] at read
      rw [List.cons_append, List.append_assoc, List.map_cons, List.cons_append, readExponent?,
        if_pos marked, readSign_complete signs]
      dsimp only
      rw [read]

/-- What is read of a number after its sign. -/
def readUnsigned? (negative : Bool) (text : List Char) : Option (Number × List Char) := do
  let (whole, text) ← readWhole? text
  let (fraction, text) ← readFraction? text
  let (exponent, text) ← readExponent? text
  return ({ negative, whole, fraction, exponent }, text)

theorem readNumber?_minus (text : List Char) : readNumber? ('-' :: text) = readUnsigned? true text := rfl

theorem readNumber?_unsigned (unsigned : text.head? ≠ some '-') :
    readNumber? text = readUnsigned? false text := by
  unfold readNumber?
  split
  next negative after same =>
    split at same
    next => exact absurd rfl unsigned
    next =>
      obtain ⟨rfl, rfl⟩ := same
      rfl

theorem readUnsigned?_sound {negative : Bool} {number : Number}
    (read : readUnsigned? negative text = some (number, rest)) :
    ∃ spelled, text = spelled ++ rest ∧
      SpellsNumber number ((if negative then ['-'] else []) ++ spelled) := by
  simp only [readUnsigned?, Option.bind_eq_bind, Option.bind_eq_some_iff, Prod.exists] at read
  obtain ⟨whole, afterWhole, readWhole, fraction, afterFraction, readFraction, exponent,
    afterExponent, readExponent, made⟩ := read
  obtain ⟨rfl, rfl⟩ := made
  obtain ⟨wholes, split, spellsWhole⟩ := readWhole?_sound readWhole
  obtain ⟨fractions, split', spellsFraction⟩ := readFraction?_sound readFraction
  obtain ⟨exponents, split'', spellsExponent⟩ := readExponent?_sound readExponent
  refine ⟨_, ?_, .parts spellsWhole spellsFraction spellsExponent⟩
  rw [split, split', split'', List.append_assoc, List.append_assoc]

theorem readNumber?_sound {number : Number} (read : readNumber? text = some (number, rest)) :
    ∃ spelled, text = spelled ++ rest ∧ SpellsNumber number spelled := by
  by_cases signed : text.head? = some '-'
  · obtain ⟨after, rfl⟩ := List.head?_eq_some_iff.mp signed
    rw [readNumber?_minus] at read
    obtain ⟨spelled, split, spells⟩ := readUnsigned?_sound read
    exact ⟨'-' :: spelled, congrArg _ split, spells⟩
  · rw [readNumber?_unsigned signed] at read
    exact readUnsigned?_sound read

theorem SpellsWhole.head_isDigit {whole : Nat} {spelled : List Char} (spells : SpellsWhole whole spelled) :
    ∃ (first : Fin 10) (more : List Char), spelled = digitChar first :: more := by
  cases spells with
  | zero => exact ⟨0, [], rfl⟩
  | @digits first more _ => exact ⟨first, more.map digitChar, rfl⟩

theorem readNumber?_complete {number : Number} {spelled : List Char}
    (spells : SpellsNumber number spelled) (ended : EndsNumber rest) :
    readNumber? (spelled ++ rest) = some (number, rest) := by
  obtain @⟨negative, whole, fraction, exponent, wholes, fractions, exponents, spellsWhole,
    spellsFraction, spellsExponent⟩ := spells
  -- What a fraction or an exponent starts with goes on with none of the parts before it.
  have pointless : (exponents ++ rest).head? ≠ some '.' := by
    cases spellsExponent with
    | absent =>
        intro point
        exact (ended '.' point).2 (by simp)
    | digits marked =>
        rintro ⟨⟩
        simp at marked
  have digitless : Digitless (exponents ++ rest) := by
    cases spellsExponent with
    | absent => exact ended.digitless
    | digits marked =>
        rintro c ⟨⟩
        revert marked
        simp only [List.mem_cons, List.not_mem_nil, or_false]
        rintro (rfl | rfl) <;> decide
  have digitless' : Digitless (fractions ++ (exponents ++ rest)) := by
    cases spellsFraction with
    | absent => exact digitless
    | digits =>
        rintro c ⟨⟩
        decide
  have read : readUnsigned? negative (wholes ++ (fractions ++ (exponents ++ rest))) =
      some ({ negative, whole, fraction, exponent }, rest) := by
    simp only [readUnsigned?, readWhole?_complete spellsWhole digitless',
      readFraction?_complete spellsFraction digitless pointless,
      readExponent?_complete spellsExponent ended, Option.bind_eq_bind, Option.bind_some]
    rfl
  simp only [List.append_assoc]
  cases negative with
  | true => exact (readNumber?_minus _).trans read
  | false =>
      refine (readNumber?_unsigned ?_).trans read
      obtain ⟨first, more, rfl⟩ := spellsWhole.head_isDigit
      simpa using digitChar_ne (by decide) first

/-! Strings. -/

theorem escape?_eq_some {letter c : Char} : escape? letter = some c ↔ (letter, c) ∈ escapes := by
  unfold escape?
  constructor
  · split <;> rintro ⟨⟩ <;> decide
  · simp only [escapes, List.mem_cons, List.not_mem_nil, or_false, Prod.mk.injEq]
    rintro (⟨rfl, rfl⟩ | ⟨rfl, rfl⟩ | ⟨rfl, rfl⟩ | ⟨rfl, rfl⟩ | ⟨rfl, rfl⟩ | ⟨rfl, rfl⟩ |
      ⟨rfl, rfl⟩ | ⟨rfl, rfl⟩) <;> rfl

/-- What holds of the sixteen digits in both cases. -/
theorem IsHexDigit.cases {P : Nat → Char → Prop}
    (all : ∀ value < 16, P value (Nat.digitChar value) ∧ P value (Nat.digitChar value).toUpper)
    {value : Nat} {c : Char} (hex : IsHexDigit value c) : P value c := by
  obtain ⟨small, rfl | rfl⟩ := hex
  · exact (all value small).1
  · exact (all value small).2

theorem digitValue?_eq_some {c : Char} {value : Nat} :
    digitValue? 16 c = some value ↔ IsHexDigit value c := by
  constructor
  · intro found
    have small : c.toNat < 103 := by
      have digit : '9'.toNat = 57 := rfl
      have lower : 'f'.toNat = 102 := rfl
      have upper : 'F'.toNat = 70 := rfl
      simp only [digitValue?] at found
      split_ifs at found <;> omega
    have all : ∀ code < 103, ∀ value ∈ digitValue? 16 (Char.ofNat code),
        IsHexDigit value (Char.ofNat code) := by decide +kernel
    rw [← Char.ofNat_toNat c] at found ⊢
    exact all _ small _ found
  · exact IsHexDigit.cases (P := fun value c => digitValue? 16 c = some value) (by decide)

theorem isHighSurrogate_iff {unit : Nat} : isHighSurrogate unit = true ↔ HighSurrogate unit := by
  simp [isHighSurrogate, HighSurrogate]

theorem isLowSurrogate_iff {unit : Nat} : isLowSurrogate unit = true ↔ LowSurrogate unit := by
  simp [isLowSurrogate, LowSurrogate]

theorem digitsValue?_eq_some {a b c d : Char} {unit : Nat} :
    digitsValue? 16 0 [a, b, c, d] = some unit ↔ SpellsUnit unit [a, b, c, d] := by
  simp only [digitsValue?, Option.bind_eq_some_iff, digitValue?_eq_some, Option.some.injEq]
  constructor
  · rintro ⟨k, first, l, second, m, third, n, fourth, rfl⟩
    simpa using SpellsUnit.digits first second third fourth
  · rintro @⟨_, _, _, _, k, l, m, n, first, second, third, fourth⟩
    exact ⟨k, first, l, second, m, third, n, fourth, by simp⟩

/-- Characters that stand for themselves. -/
theorem SpellsString.plain {chars : List Char}
    (plain : chars.all fun c => c ≠ '"' ∧ c ≠ '\\' ∧ 0x20 ≤ c.toNat) : SpellsString chars chars := by
  induction chars with
  | nil => exact .done
  | cons c chars ih =>
      rw [List.all_cons, Bool.and_eq_true, decide_eq_true_eq] at plain
      obtain ⟨⟨unquoted, unescaped, visible⟩, later⟩ := plain
      exact .raw unquoted unescaped visible (ih later)

theorem map_cons_eq_some {c : Char} {chars : List Char} {read : Option (List Char × List Char)} :
    read.map (fun (text, rest) => (c :: text, rest)) = some (chars, rest) ↔
      ∃ more, read = some (more, rest) ∧ chars = c :: more := by
  cases read <;> simp [Prod.ext_iff, and_comm, eq_comm]

theorem readString?_sound {chars : List Char} (read : readString? text = some (chars, rest)) :
    ∃ body, text = body ++ '"' :: rest ∧ SpellsString chars body := by
  fun_induction readString? text generalizing chars with
  | case2 =>
      obtain ⟨rfl, rfl⟩ := read
      exact ⟨[], rfl, .done⟩
  | case6 a b c d high highs isHigh a' b' c' d' cs low lows isLow code _ =>
      rename_i ih
      obtain ⟨more, found, rfl⟩ := map_cons_eq_some.mp read
      obtain ⟨body, rfl, spells⟩ := ih found
      exact ⟨_, rfl, .pair (digitsValue?_eq_some.mp highs) (isHighSurrogate_iff.mp isHigh)
        (digitsValue?_eq_some.mp lows) (isLowSurrogate_iff.mp isLow) spells⟩
  | case10 a b c d cs unit digits notHigh notLow _ ih =>
      obtain ⟨more, found, rfl⟩ := map_cons_eq_some.mp read
      obtain ⟨body, rfl, spells⟩ := ih found
      exact ⟨_, rfl, .unit (digitsValue?_eq_some.mp digits) (isHighSurrogate_iff.not.mp notHigh)
        (isLowSurrogate_iff.not.mp notLow) spells⟩
  | case12 letter cs _ c escaped _ ih =>
      obtain ⟨more, found, rfl⟩ := map_cons_eq_some.mp read
      obtain ⟨body, rfl, spells⟩ := ih found
      exact ⟨_, rfl, .escaped (escape?_eq_some.mp escaped) spells⟩
  | case15 c cs unquoted unescaped visible ih =>
      obtain ⟨more, found, rfl⟩ := map_cons_eq_some.mp read
      obtain ⟨body, rfl, spells⟩ := ih found
      exact ⟨_, rfl, .raw unquoted unescaped (Nat.le_of_not_lt visible) spells⟩
  | _ => cases read

theorem readString?_complete {chars body : List Char} (spells : SpellsString chars body)
    (rest : List Char) : readString? (body ++ '"' :: rest) = some (chars, rest) := by
  induction spells with
  | done => rw [List.nil_append, readString?.eq_def]; simp
  | raw unquoted unescaped visible _ ih =>
      rw [List.cons_append, readString?.eq_def]
      simp [unquoted, unescaped, Nat.not_lt_of_le visible, ih]
  | @escaped letter c _ _ listed _ ih =>
      have other : letter ≠ 'u' := by
        rintro rfl
        simp [escapes] at listed
      rw [List.cons_append, List.cons_append, readString?.eq_def]
      simp [other, escape?_eq_some.mpr listed, ih]
  | unit digits high low _ ih =>
      obtain @⟨a, b, c, d, _, _, _, _, _, _, _, _⟩ := id digits
      rw [List.cons_append, List.cons_append, List.append_assoc, readString?.eq_def]
      simp [digitsValue?_eq_some.mpr digits, isHighSurrogate_iff.not.mpr high,
        isLowSurrogate_iff.not.mpr low, ih]
  | pair highs high lows low _ ih =>
      obtain @⟨a, b, c, d, _, _, _, _, _, _, _, _⟩ := id highs
      obtain @⟨a', b', c', d', _, _, _, _, _, _, _, _⟩ := id lows
      rw [List.cons_append, List.cons_append, List.append_assoc, readString?.eq_def]
      simp [digitsValue?_eq_some.mpr highs, digitsValue?_eq_some.mpr lows,
        isHighSurrogate_iff.mpr high, isLowSurrogate_iff.mpr low, ih]

end PolicyAcl.Json
