import PolicyAcl.Proofs.JsonTokens
import PolicyAcl.Yaml.Scalar

/-! The strings, numbers and words of a JSON text, read as scalars of a YAML text. A string is
read up to the same quote or refused. What is read is the string, unless both have characters
that no key of a configuration has. -/
namespace PolicyAcl.Yaml

open Json (SpellsString SpellsNumber SpellsUnit)

/-- Small letters and digits, of which the keys of configurations consist. -/
def isWord (c : Char) : Bool := c.isLower || c.isDigit

def Wordy (text : List Char) : Prop := ∀ c ∈ text, isWord c = true

instance (text : List Char) : Decidable (Wordy text) :=
  List.decidableBAll (fun c => isWord c = true) text

theorem isWord_small {c : Char} (word : isWord c = true) : c.toNat < 128 := by
  have small : c.val ≤ 'z'.val := by
    rcases Bool.or_eq_true_iff.mp word with lower | digit
    · exact of_decide_eq_true (Bool.and_eq_true_iff.mp lower).2
    · exact UInt32.le_trans (of_decide_eq_true (Bool.and_eq_true_iff.mp digit).2) (by decide)
  exact Nat.lt_of_le_of_lt (UInt32.le_iff_toNat_le.mp small) (by decide)

theorem isWord_cases {P : Char → Prop}
    (all : ∀ code < 128, isWord (Char.ofNat code) = true → P (Char.ofNat code)) {c : Char} (word : isWord c = true) : P c := by
  have here := all _ (isWord_small word)
  rw [Char.ofNat_toNat] at here
  exact here word

/-- What becomes of a character when all ends of lines are made the same. -/
def unifyBreak (c : Char) : Char := if c = '\x85' then '\n' else c

theorem unifyBreaks_eq_map {text : List Char} (noReturn : ∀ c ∈ text, c ≠ '\r') :
    unifyBreaks text = text.map unifyBreak := by
  fun_induction unifyBreaks text with
  | case1 => rfl
  | case2 => simp at noReturn
  | case3 c cs _ ih =>
      rw [List.map_cons, ih fun c member => noReturn c (List.mem_cons_of_mem _ member), unifyBreak]
      simp [noReturn c List.mem_cons_self]

/-- Only an end of a line is changed, and it stays one. -/
theorem unifyBreak_eq_self {c : Char} (goesOn : isBreak (unifyBreak c) = false) : unifyBreak c = c :=
  if_neg fun next => by
    subst next
    exact absurd goesOn (by decide)

/-- Nothing in a word is a blank or ends a line. -/
theorem isWord_visible {c : Char} (word : isWord c = true) :
    unifyBreak c = c ∧ isBlank c = false ∧ isBreak c = false :=
  isWord_cases (P := fun c => unifyBreak c = c ∧ isBlank c = false ∧ isBreak c = false) (by decide) word

/-! Gaps of a string: blanks, and ends of lines of which none is escaped. -/

inductive Gap.Spaced : Gap → Prop
  | blanks {blanks : List Char} : blanks ≠ [] → (∀ c ∈ blanks, isBlank c = true) → Spaced { blanks }
  | breaks {blanks more : List Char} {c : Char} : isBreak c = true → (∀ d ∈ more, isBreak d = true) →
      Spaced { blanks, broken := true, first := some c, more }

theorem Gap.spaced_addBlank {gap : Gap} (spaced : gap = {} ∨ gap.Spaced) {c : Char}
    (blank : isBlank c = true) : (gap.addBlank c).Spaced := by
  rcases spaced with rfl | @⟨blanks, _, all⟩ | ⟨ends, all⟩
  · exact .blanks (List.cons_ne_nil _ _) (by simpa [addBlank] using blank)
  · exact .blanks (List.cons_ne_nil _ _) (by simpa [addBlank, blank] using all)
  · exact .breaks ends all

theorem Gap.spaced_addBreak {gap : Gap} (spaced : gap = {} ∨ gap.Spaced) {c : Char}
    (ends : isBreak c = true) : (gap.addBreak c).Spaced := by
  rcases spaced with rfl | @⟨blanks, _, all⟩ | ⟨first, all⟩
  · exact .breaks ends (by simp)
  · exact .breaks ends (by simp)
  · exact .breaks first (by simpa [addBreak, ends] using all)

/-- A gap is never read as nothing. -/
theorem Gap.Spaced.text {gap : Gap} (spaced : gap.Spaced) : ¬Wordy gap.text := by
  have blank {c : Char} (blank : isBlank c = true) : isWord c ≠ true := fun word => by
    simp [(isWord_visible word).2.1] at blank
  have ended {c : Char} (ends : isBreak c = true) : isWord c ≠ true := fun word => by
    simp [(isWord_visible word).2.2] at ends
  intro wordy
  rcases spaced with @⟨blanks, some, all⟩ | @⟨blanks, more, c, ends, all⟩
  · obtain ⟨c, member⟩ := List.exists_mem_of_ne_nil blanks some
    exact blank (all c member) (wordy c (by simpa [Gap.text] using member))
  · by_cases feed : c = '\n'
    · subst feed
      rcases more with - | ⟨d, more⟩
      · exact absurd (wordy ' ' (by simp [Gap.text])) (by decide)
      · exact ended (all d List.mem_cons_self) (wordy d (by simp [Gap.text]))
    · exact ended ends (wordy c (by simp [Gap.text, feed]))

/-! One character of a string in double quotes. -/

section

variable {cs rest text : List Char} {line column : Nat} {gap : Gap} {c : Char}

theorem readDoubleQuoted_blank (blank : isBlank c = true) :
    readDoubleQuoted (c :: cs) line column gap text =
      readDoubleQuoted cs line (column + 1) (gap.addBlank c) text := by
  rw [readDoubleQuoted.eq_def]
  simp [blank]

theorem readDoubleQuoted_break (visible : isBlank c = false) (ends : isBreak c = true) :
    readDoubleQuoted (c :: cs) line column gap text =
      readDoubleQuoted cs (line + 1) 0 (gap.addBreak c) text := by
  rw [readDoubleQuoted.eq_def]
  simp [visible, ends]

theorem isMarker_cons {mark : Char} (other : c ≠ mark) : isMarker mark (c :: cs) = false := by
  unfold isMarker
  split
  next same =>
    obtain ⟨rfl, -⟩ := List.cons.inj same
    simp [other]
  next => rfl

theorem isDocumentMarker_cons (hyphen : c ≠ '-') (dot : c ≠ '.') : isDocumentMarker (c :: cs) = false := by
  rw [isDocumentMarker, isMarker_cons hyphen, isMarker_cons dot]
  rfl

theorem readDoubleQuoted_quote :
    readDoubleQuoted ('"' :: rest) line column gap text =
      some { text := (gap.text.reverse ++ text).reverse, rest, line, column := column + 1 } := by
  rw [readDoubleQuoted.eq_def]
  simp [isBlank, isBreak, isDocumentMarker_cons]

theorem readDoubleQuoted_raw (visible : isBlank c = false) (goesOn : isBreak c = false)
    (unquoted : c ≠ '"') (unescaped : c ≠ '\\') :
    readDoubleQuoted (c :: cs) line column gap text =
      if column = 0 ∧ isDocumentMarker (c :: cs) = true then none
      else readDoubleQuoted cs line (column + 1) {} (c :: (gap.text.reverse ++ text)) := by
  rw [readDoubleQuoted.eq_def]
  simp [visible, goesOn, unquoted, unescaped]

theorem backslash_visible : isBlank '\\' = false ∧ isBreak '\\' = false := by decide

theorem readDoubleQuoted_escaped {letter : Char} (listed : (letter, c) ∈ Json.escapes) :
    readDoubleQuoted ('\\' :: letter :: cs) line column gap text =
      readDoubleQuoted cs line (column + 2) {} (c :: (gap.text.reverse ++ text)) := by
  have known : ∀ pair ∈ Json.escapes, escape? pair.1 = some pair.2 ∧ isBreak pair.1 = false ∧
      pair.1 ≠ 'x' ∧ pair.1 ≠ 'u' ∧ pair.1 ≠ 'U' := by decide
  obtain ⟨stands, goesOn, x, u, U⟩ := known _ listed
  rw [readDoubleQuoted.eq_def]
  simp [backslash_visible, isDocumentMarker_cons, stands, goesOn, x, u, U]

theorem escapedCode?_unit {digits : List Char} {unit : Nat} (spells : SpellsUnit unit digits) :
    escapedCode? digits = characterOf? unit := by
  obtain ⟨k, l, m, n⟩ := spells
  rw [escapedCode?, Json.digitsValue?_eq_some.mpr (.digits k l m n), Option.bind_some]

theorem readDoubleQuoted_code {digits : List Char} {unit : Nat} (spells : SpellsUnit unit digits) :
    readDoubleQuoted ('\\' :: 'u' :: (digits ++ cs)) line column gap text =
      (characterOf? unit).bind fun c =>
        readDoubleQuoted cs line (column + 6) {} (c :: (gap.text.reverse ++ text)) := by
  have read := escapedCode?_unit spells
  have goesOn : isBreak 'u' = false := by decide
  obtain ⟨-, -, -, -⟩ := spells
  rw [readDoubleQuoted.eq_def]
  simp [backslash_visible, isDocumentMarker_cons, goesOn, read]
  cases characterOf? _ <;> rfl

/-- Surrogates have no character of their own. -/
theorem readDoubleQuoted_surrogate {digits : List Char} {unit : Nat} (spells : SpellsUnit unit digits)
    (high : Json.HighSurrogate unit) :
    readDoubleQuoted ('\\' :: 'u' :: (digits ++ cs)) line column gap text = none := by
  have none : characterOf? unit = .none := by
    obtain ⟨above, below⟩ := high
    rw [characterOf?, dif_neg]
    rintro (small | ⟨large, -⟩) <;> omega
  rw [readDoubleQuoted_code spells, none, Option.bind_none]

theorem readDoubleQuoted_unit {digits : List Char} {unit : Nat} (spells : SpellsUnit unit digits)
    (notHigh : ¬Json.HighSurrogate unit) (notLow : ¬Json.LowSurrogate unit) :
    readDoubleQuoted ('\\' :: 'u' :: (digits ++ cs)) line column gap text =
      readDoubleQuoted cs line (column + 6) {} (Char.ofNat unit :: (gap.text.reverse ++ text)) := by
  have valid : unit.isValidChar := by
    obtain ⟨⟨k, -⟩, ⟨l, -⟩, ⟨m, -⟩, ⟨n, -⟩⟩ := spells
    unfold Json.HighSurrogate at notHigh
    unfold Json.LowSurrogate at notLow
    unfold Nat.isValidChar
    omega
  rw [readDoubleQuoted_code spells, characterOf?, dif_pos valid, Option.bind_some, Char.ofNat,
    dif_pos valid]

end

/-! A whole string in double quotes. -/

theorem map_unifyBreak {digits : List Char} {unit : Nat} (spells : SpellsUnit unit digits) :
    digits.map unifyBreak = digits := by
  have digit {value : Nat} {c : Char} : Json.IsHexDigit value c → unifyBreak c = c :=
    Json.IsHexDigit.cases (P := fun _ c => unifyBreak c = c) (by decide)
  obtain ⟨k, l, m, n⟩ := spells
  simp [digit k, digit l, digit m, digit n]

theorem unifyBreak_letter {letter c : Char} (listed : (letter, c) ∈ Json.escapes) :
    unifyBreak letter = letter := by
  have all : ∀ pair ∈ Json.escapes, unifyBreak pair.1 = pair.1 := by decide
  exact all _ listed

theorem map_unifyBreak_code {digits : List Char} {unit : Nat} (spells : SpellsUnit unit digits)
    (body rest : List Char) :
    ('\\' :: 'u' :: (digits ++ body)).map unifyBreak ++ rest =
      '\\' :: 'u' :: (digits ++ (body.map unifyBreak ++ rest)) := by
  rw [List.map_cons, List.map_cons, List.map_append, map_unifyBreak spells, List.cons_append,
    List.cons_append, List.append_assoc]
  rfl

theorem map_unifyBreak_escaped {letter c : Char} (listed : (letter, c) ∈ Json.escapes)
    (body rest : List Char) :
    ('\\' :: letter :: body).map unifyBreak ++ rest = '\\' :: letter :: (body.map unifyBreak ++ rest) := by
  rw [List.map_cons, List.map_cons, unifyBreak_letter listed]
  rfl

section

variable {chars body rest text : List Char} {gap : Gap}

/-- What has been read of a string is the start of no key. -/
structure Odd (gap : Gap) (text : List Char) : Prop where
  spaced : gap = {} ∨ gap.Spaced
  odd : gap.Spaced ∨ ¬Wordy text

theorem Gap.Spaced.odd (spaced : gap.Spaced) : Odd gap text := ⟨.inr spaced, .inl spaced⟩

theorem Odd.flush (read : Odd gap text) : ¬Wordy (gap.text.reverse ++ text) := by
  intro wordy
  rcases read.odd with spaced | odd
  · exact spaced.text fun c member => wordy c (List.mem_append_left text (List.mem_reverse.mpr member))
  · exact odd fun c member => wordy c (List.mem_append_right _ member)

theorem Odd.cons (read : Odd gap text) (c : Char) : Odd {} (c :: (gap.text.reverse ++ text)) :=
  ⟨.inl rfl, .inr fun wordy => read.flush fun d member => wordy d (List.mem_cons_of_mem c member)⟩

/-- A string that starts with other characters than keys have is not read as a key. -/
theorem Odd.readDoubleQuoted (spells : SpellsString chars body) (read : Odd gap text)
    {line column : Nat} {scanned : Scanned}
    (found : readDoubleQuoted (body.map unifyBreak ++ '"' :: rest) line column gap text = some scanned) :
    scanned.rest = rest ∧ ¬Wordy scanned.text := by
  induction spells generalizing gap text line column with
  | done =>
      rw [List.map_nil, List.nil_append, readDoubleQuoted_quote] at found
      obtain rfl := Option.some.inj found
      exact ⟨rfl, fun wordy => read.flush fun c member => wordy c (List.mem_reverse.mpr member)⟩
  | @raw c chars body unquoted unescaped _ _ ih =>
      rw [List.map_cons, List.cons_append] at found
      cases blank : isBlank (unifyBreak c) with
      | true =>
          rw [readDoubleQuoted_blank blank] at found
          exact ih (Gap.spaced_addBlank read.spaced blank).odd found
      | false =>
          cases ends : isBreak (unifyBreak c) with
          | true =>
              rw [readDoubleQuoted_break blank ends] at found
              exact ih (Gap.spaced_addBreak read.spaced ends).odd found
          | false =>
              have same := unifyBreak_eq_self ends
              rw [same] at blank ends found
              rw [readDoubleQuoted_raw blank ends unquoted unescaped] at found
              split at found
              · cases found
              · exact ih (read.cons c) found
  | escaped listed _ ih =>
      rw [map_unifyBreak_escaped listed, readDoubleQuoted_escaped listed] at found
      exact ih (read.cons _) found
  | unit spells high low _ ih =>
      rw [map_unifyBreak_code spells, readDoubleQuoted_unit spells high low] at found
      exact ih (read.cons _) found
  | pair spells surrogate =>
      rw [map_unifyBreak_code spells, readDoubleQuoted_surrogate spells surrogate] at found
      cases found

/-- The outcomes of reading a string up to its quote: it is refused or read as another text, if
it is no key, or read as it is up to a place on the same line. -/
inductive ReadsQuoted (chars rest : List Char) (line column : Nat) : Option Scanned → Prop
  | refused : ¬Wordy chars → ReadsQuoted chars rest line column none
  | other {scanned : Scanned} : ¬Wordy chars → ¬Wordy scanned.text → scanned.rest = rest →
      ReadsQuoted chars rest line column (some scanned)
  | exact : ReadsQuoted chars rest line column (some { text := chars, rest, line, column := column })

theorem Odd.outcome (spells : SpellsString chars body) (read : Odd gap text) {whole : List Char}
    (odd : ¬Wordy whole) (line column line' column' : Nat) :
    ReadsQuoted whole rest line column
      (Yaml.readDoubleQuoted (body.map unifyBreak ++ '"' :: rest) line' column' gap text) := by
  cases found : Yaml.readDoubleQuoted (body.map unifyBreak ++ '"' :: rest) line' column' gap text with
  | none => exact .refused odd
  | some scanned =>
      obtain ⟨left, odd'⟩ := read.readDoubleQuoted spells found
      exact .other odd odd' left

theorem ReadsQuoted.cons {before : List Char} {c : Char} {line column column' : Nat}
    {read : Option Scanned} (outcome : ReadsQuoted ((before ++ [c]) ++ chars) rest line column' read)
    (same : column' = column) : ReadsQuoted (before ++ c :: chars) rest line column read := by
  subst same
  rwa [List.append_assoc] at outcome

theorem SpellsUnit.length {digits : List Char} {unit : Nat} (spells : SpellsUnit unit digits) :
    digits.length = 4 := by
  obtain ⟨-, -, -, -⟩ := spells
  rfl

/-- A pair of surrogates is a character that no key has. -/
theorem not_isWord_pair {high low : Nat} (surrogate : Json.HighSurrogate high)
    (surrogate' : Json.LowSurrogate low) :
    ¬isWord (Char.ofNat (0x10000 + (high - 0xd800) * 0x400 + (low - 0xdc00))) := by
  obtain ⟨above, below⟩ := surrogate
  obtain ⟨above', below'⟩ := surrogate'
  intro word
  have small := isWord_small word
  have valid : (0x10000 + (high - 0xd800) * 0x400 + (low - 0xdc00)).isValidChar := .inr (by omega)
  rw [Char.ofNat, dif_pos valid] at small
  change 0x10000 + (high - 0xd800) * 0x400 + (low - 0xdc00) < 128 at small
  omega

theorem readDoubleQuoted_after (spells : SpellsString chars body) (before : List Char)
    {line column : Nat} (started : 0 < column) :
    ReadsQuoted (before ++ chars) rest line (column + body.length + 1)
      (readDoubleQuoted (body.map unifyBreak ++ '"' :: rest) line column {} before.reverse) := by
  have next (before : List Char) (c : Char) :
      c :: (({} : Gap).text.reverse ++ before.reverse) = (before ++ [c]).reverse := by
    simp [Gap.text]
  induction spells generalizing before column with
  | done =>
      rw [List.map_nil, List.nil_append, readDoubleQuoted_quote]
      have same : (({} : Gap).text.reverse ++ before.reverse).reverse = before ++ [] := by simp [Gap.text]
      rw [same]
      exact .exact
  | @raw c chars body unquoted unescaped _ spells ih =>
      have odd (other : ¬isWord c) : ¬Wordy (before ++ c :: chars) :=
        fun wordy => other (wordy c (by simp))
      rw [List.map_cons, List.cons_append]
      cases blank : isBlank (unifyBreak c) with
      | true =>
          rw [readDoubleQuoted_blank blank]
          refine (Gap.spaced_addBlank (.inl rfl) blank).odd.outcome spells (odd fun word => ?_) ..
          simp [isWord_visible word] at blank
      | false =>
          cases ends : isBreak (unifyBreak c) with
          | true =>
              rw [readDoubleQuoted_break blank ends]
              refine (Gap.spaced_addBreak (.inl rfl) ends).odd.outcome spells (odd fun word => ?_) ..
              simp [isWord_visible word] at ends
          | false =>
              have same := unifyBreak_eq_self ends
              rw [same] at blank ends ⊢
              rw [readDoubleQuoted_raw blank ends unquoted unescaped, if_neg (by omega), next before c]
              exact (ih _ (Nat.succ_pos _)).cons (by rw [List.length_cons]; omega)
  | escaped listed _ ih =>
      rw [map_unifyBreak_escaped listed, readDoubleQuoted_escaped listed, next before]
      exact (ih _ (Nat.succ_pos _)).cons (by rw [List.length_cons, List.length_cons]; omega)
  | unit spells high low _ ih =>
      have four := SpellsUnit.length spells
      rw [map_unifyBreak_code spells, readDoubleQuoted_unit spells high low, next before]
      refine (ih _ (Nat.succ_pos _)).cons ?_
      rw [List.length_cons, List.length_cons, List.length_append]
      omega
  | pair spells surrogate _ surrogate' =>
      rw [map_unifyBreak_code spells, readDoubleQuoted_surrogate spells surrogate]
      exact .refused fun wordy => not_isWord_pair surrogate surrogate' (wordy _ (by simp))

/-- A string is read from its first character to the quote that ends it. -/
theorem readDoubleQuoted_spelled (spells : SpellsString chars body) (rest : List Char) (line : Nat)
    {column : Nat} (started : 0 < column) :
    ReadsQuoted chars rest line (column + body.length + 1)
      (readDoubleQuoted (body.map unifyBreak ++ '"' :: rest) line column {} []) :=
  readDoubleQuoted_after spells [] started

/-- Each character takes up a pair of codes at most. -/
theorem body_length_le (spells : SpellsString chars body) : body.length ≤ 12 * chars.length := by
  induction spells with
  | done => rfl
  | raw | escaped =>
      simp only [List.length_cons]
      omega
  | unit spells =>
      have four := SpellsUnit.length spells
      simp only [List.length_cons, List.length_append]
      omega
  | pair spells _ spells' =>
      have four := SpellsUnit.length spells
      have four' := SpellsUnit.length spells'
      simp only [List.length_cons, List.length_append]
      omega

end

/-! Numbers and the words for null and the booleans. -/

/-- A character that a plain scalar goes on with, and that is kept as it is. -/
def isPlain (c : Char) : Bool :=
  !isBlank c && !isBreak c && !isFlowIndicator c && c ≠ ':' && unifyBreak c = c

/-- The end of a text, or of an item of a flow collection. -/
def Delimited (inFlow : Bool) (rest : List Char) : Prop :=
  ∀ c ∈ rest.head?, inFlow = true ∧ isFlowIndicator c = true

theorem flowIndicator_visible {c : Char} (indicator : isFlowIndicator c = true) :
    isBlank c = false ∧ isBreak c = false ∧ c ≠ ':' := by
  simp only [isFlowIndicator, Bool.or_eq_true, decide_eq_true_eq] at indicator
  rcases indicator with (((rfl | rfl) | rfl) | rfl) | rfl <;> decide

theorem readPlain_word {word rest : List Char} {inFlow : Bool} (plain : ∀ c ∈ word, isPlain c = true)
    (delimited : Delimited inFlow rest) (line column : Nat) (text : List Char) :
    readPlain inFlow 0 (word ++ rest) line column {} text =
      some { text := text.reverse ++ word, rest, line, column := column + word.length } := by
  induction word generalizing text column with
  | nil =>
      cases rest with
      | nil => simp [readPlain]
      | cons c rest =>
          obtain ⟨rfl, indicator⟩ := delimited c rfl
          obtain ⟨visible, goesOn, colon⟩ := flowIndicator_visible indicator
          rw [List.nil_append, readPlain]
          simp [visible, goesOn, colon, indicator, Gap.isEmpty]
  | cons c word ih =>
      have here := plain c List.mem_cons_self
      simp only [isPlain, Bool.and_eq_true, Bool.not_eq_true', decide_eq_true_eq] at here
      obtain ⟨⟨⟨⟨visible, goesOn⟩, inside⟩, colon⟩, -⟩ := here
      have step : readPlain inFlow 0 (c :: (word ++ rest)) line column {} text =
          readPlain inFlow 0 (word ++ rest) line (column + 1) {} (c :: text) := by
        rw [readPlain]
        simp [visible, goesOn, inside, colon, Gap.isEmpty, Gap.text]
      rw [List.cons_append, step, ih fun c member => plain c (List.mem_cons_of_mem _ member)]
      simp [Nat.add_assoc, Nat.add_comm 1]

/-- The characters of numbers. -/
def figures : List Char := ['0', '1', '2', '3', '4', '5', '6', '7', '8', '9', '+', '-', '.', 'e', 'E']

/-- Text in the characters of numbers. -/
def Numeral (text : List Char) : Prop := ∀ c ∈ text, c ∈ figures

instance (text : List Char) : Decidable (Numeral text) :=
  List.decidableBAll (fun c => c ∈ figures) text

theorem Numeral.all {P : Char → Bool} {text : List Char} (numeral : Numeral text)
    (all : figures.all P) : text.all P :=
  List.all_eq_true.mpr fun c member => List.all_eq_true.mp all c (numeral c member)

theorem Numeral.append {text more : List Char} (first : Numeral text) (second : Numeral more) :
    Numeral (text ++ more) := List.forall_mem_append.mpr ⟨first, second⟩

theorem numeral_digits (digits : List (Fin 10)) : Numeral (digits.map Json.digitChar) := by
  have all : ∀ digit, Numeral [Json.digitChar digit] := by decide
  rw [Numeral, List.forall_mem_map]
  exact fun digit _ => all digit _ List.mem_cons_self

theorem numeral_number {number : Json.Number} {spelled : List Char}
    (spells : SpellsNumber number spelled) : Numeral spelled := by
  obtain @⟨negative, _, _, _, wholes, fractions, exponents, whole, fraction, exponent⟩ := spells
  have signed : Numeral (if negative then ['-'] else []) := by cases negative <;> decide
  have wholes : Numeral wholes := by
    cases whole with
    | zero => decide
    | digits => exact numeral_digits _
  have fractions : Numeral fractions := by
    cases fraction with
    | absent => decide
    | digits => exact List.forall_mem_cons.mpr ⟨by decide, numeral_digits _⟩
  have exponents : Numeral exponents := by
    cases exponent with
    | absent => decide
    | @digits mark negative sign digits marked spellsSign =>
        have sign : Numeral sign := by cases spellsSign <;> decide
        have marks : Numeral ['e', 'E'] := by decide
        exact List.forall_mem_cons.mpr ⟨marks _ marked, sign.append (numeral_digits _)⟩
  exact signed.append (wholes.append (fractions.append exponents))

end PolicyAcl.Yaml
