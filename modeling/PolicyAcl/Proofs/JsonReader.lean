import Mathlib.Data.Fintype.Basic
import Mathlib.Tactic.FinCases
import PolicyAcl.Proofs.JsonTokens

/-! The reader accepts the documents of the grammar and no others. A number is read up to a
character that cannot go on with it, and every other value up to its own end. -/
namespace PolicyAcl.Json

variable {fuel : Nat} {text rest : List Char} {value : Value}

theorem readValue?_skipBlanks (fuel : Nat) (text : List Char) :
    readValue? fuel (skipBlanks text) = readValue? fuel text := by
  cases fuel with
  | zero => rfl
  | succ fuel =>
      rw [readValue?.eq_def, readValue?.eq_def]
      dsimp only
      rw [skipBlanks_skipBlanks]

theorem readItems?_skipBlanks (fuel : Nat) (text : List Char) :
    readItems? fuel (skipBlanks text) = readItems? fuel text := by
  cases fuel with
  | zero => rfl
  | succ fuel => rw [readItems?, readItems?, readValue?_skipBlanks]

theorem readFields?_skipBlanks (fuel : Nat) (text : List Char) :
    readFields? fuel (skipBlanks text) = readFields? fuel text := by
  cases fuel with
  | zero => rfl
  | succ fuel =>
      rw [readFields?.eq_def, readFields?.eq_def]
      dsimp only
      rw [skipBlanks_skipBlanks]

/-- What the readers read is spelled in front of what they leave. -/
structure Sound (fuel : Nat) : Prop where
  value : ∀ {text value rest}, readValue? fuel text = some (value, rest) →
    ∃ before spelled, text = before ++ (spelled ++ rest) ∧ Blanks before ∧
      Spells Blanks value spelled
  items : ∀ {text items rest}, readItems? fuel text = some (items, rest) →
    ∃ spelled, text = spelled ++ ']' :: rest ∧ SpellsItems Blanks items spelled
  fields : ∀ {text fields rest}, readFields? fuel text = some (fields, rest) →
    ∃ spelled, text = spelled ++ '\x7d' :: rest ∧ SpellsFields Blanks fields spelled

theorem Sound.value_succ (sound : Sound fuel) (read : readValue? (fuel + 1) text = some (value, rest)) :
    ∃ before spelled, text = before ++ (spelled ++ rest) ∧ Blanks before ∧
      Spells Blanks value spelled := by
  obtain ⟨before, blank, split⟩ := skipBlanks_split text
  suffices spelled : ∃ spelled, skipBlanks text = spelled ++ rest ∧ Spells Blanks value spelled by
    obtain ⟨spelled, same, spells⟩ := spelled
    exact ⟨before, spelled, same ▸ split, blank, spells⟩
  rw [readValue?.eq_def] at read
  dsimp only at read
  split at read
  next same =>
    obtain ⟨rfl, rfl⟩ := read
    exact ⟨_, same, .null⟩
  next same =>
    obtain ⟨rfl, rfl⟩ := read
    exact ⟨_, same, .boolTrue⟩
  next same =>
    obtain ⟨rfl, rfl⟩ := read
    exact ⟨_, same, .boolFalse⟩
  next after same =>
    obtain ⟨⟨chars, left⟩, found, made⟩ := Option.map_eq_some_iff.mp read
    obtain ⟨rfl, rfl⟩ := made
    obtain ⟨body, rfl, spells⟩ := readString?_sound found
    exact ⟨'"' :: (body ++ ['"']), by simp [same], .string spells⟩
  next after same =>
    split at read
    next closed =>
      obtain ⟨rfl, rfl⟩ := read
      obtain ⟨gap, blank', split'⟩ := skipBlanks_split after
      rw [closed] at split'
      exact ⟨'[' :: (gap ++ [']']), by rw [same, split']; simp, .noItems blank'⟩
    next =>
      obtain ⟨⟨items, left⟩, found, made⟩ := Option.map_eq_some_iff.mp read
      obtain ⟨rfl, rfl⟩ := made
      rw [readItems?_skipBlanks] at found
      obtain ⟨spelled, rfl, spells⟩ := sound.items found
      exact ⟨'[' :: (spelled ++ [']']), by simp [same], .array spells⟩
  next after same =>
    split at read
    next closed =>
      obtain ⟨rfl, rfl⟩ := read
      obtain ⟨gap, blank', split'⟩ := skipBlanks_split after
      rw [closed] at split'
      exact ⟨'\x7b' :: (gap ++ ['\x7d']), by rw [same, split']; simp, .noFields blank'⟩
    next =>
      obtain ⟨⟨fields, left⟩, found, made⟩ := Option.map_eq_some_iff.mp read
      obtain ⟨rfl, rfl⟩ := made
      rw [readFields?_skipBlanks] at found
      obtain ⟨spelled, rfl, spells⟩ := sound.fields found
      exact ⟨'\x7b' :: (spelled ++ ['\x7d']), by simp [same], .object spells⟩
  next =>
    obtain ⟨⟨number, left⟩, found, made⟩ := Option.map_eq_some_iff.mp read
    obtain ⟨rfl, rfl⟩ := made
    obtain ⟨spelled, same, spells⟩ := readNumber?_sound found
    exact ⟨spelled, same, .number spells⟩

theorem Sound.item (sound : Sound fuel) (read : readValue? fuel text = some (value, rest)) :
    ∃ spelled, text = spelled ++ skipBlanks rest ∧ SpellsItem Blanks value spelled := by
  obtain ⟨before, spelled, rfl, blank, spells⟩ := sound.value read
  obtain ⟨after, blank', split⟩ := skipBlanks_split rest
  refine ⟨before ++ (spelled ++ after), ?_, .between blank spells blank'⟩
  rw [List.append_assoc, List.append_assoc, ← split]

theorem Sound.items_succ (sound : Sound fuel) {items : List Value}
    (read : readItems? (fuel + 1) text = some (items, rest)) :
    ∃ spelled, text = spelled ++ ']' :: rest ∧ SpellsItems Blanks items spelled := by
  rw [readItems?] at read
  split at read
  next => cases read
  next value left found =>
    obtain ⟨spelled, split, spells⟩ := sound.item found
    split at read
    next after next =>
      obtain ⟨⟨items, left⟩, found, made⟩ := Option.map_eq_some_iff.mp read
      obtain ⟨rfl, rfl⟩ := made
      obtain ⟨later, rfl, spells'⟩ := sound.items found
      exact ⟨spelled ++ ',' :: later, by rw [split, next]; simp, .more spells spells'⟩
    next after next =>
      obtain ⟨rfl, rfl⟩ := read
      exact ⟨spelled, next ▸ split, .last spells⟩
    next => cases read

theorem Sound.fields_succ (sound : Sound fuel) {fields : List (String × Value)}
    (read : readFields? (fuel + 1) text = some (fields, rest)) :
    ∃ spelled, text = spelled ++ '\x7d' :: rest ∧ SpellsFields Blanks fields spelled := by
  obtain ⟨before, blank, split⟩ := skipBlanks_split text
  rw [readFields?.eq_def] at read
  dsimp only at read
  split at read
  next opened quoted =>
    split at read
    next => cases read
    next name left named =>
      obtain ⟨body, rfl, spellsName⟩ := readString?_sound named
      obtain ⟨after, blank', split'⟩ := skipBlanks_split left
      split at read
      next valued colon =>
        split at read
        next => cases read
        next value left found =>
          obtain ⟨spelled, split'', spells⟩ := sound.item found
          have field : SpellsField Blanks (.ofList name, value) _ :=
            .named blank spellsName blank' spells
          have whole : text =
              (before ++ '"' :: (body ++ '"' :: (after ++ ':' :: spelled))) ++ skipBlanks left := by
            rw [split, quoted, split', colon, split'']
            simp
          split at read
          next after next =>
            obtain ⟨⟨fields, left⟩, found, made⟩ := Option.map_eq_some_iff.mp read
            obtain ⟨rfl, rfl⟩ := made
            obtain ⟨later, rfl, spells'⟩ := sound.fields found
            exact ⟨_ ++ ',' :: later, by rw [whole, next]; simp, .more field spells'⟩
          next after next =>
            obtain ⟨rfl, rfl⟩ := read
            exact ⟨_, next ▸ whole, .last field⟩
          next => cases read
      next => cases read
  next => cases read

theorem sound (fuel : Nat) : Sound fuel := by
  induction fuel with
  | zero =>
      refine ⟨?_, ?_, ?_⟩ <;>
        · intro _ _ _ read
          cases read
  | succ fuel ih => exact ⟨ih.value_succ, ih.items_succ, ih.fields_succ⟩

/-- What a value may be followed by: anything, unless it is a number. -/
def Ends (value : Value) (rest : List Char) : Prop :=
  ∀ number, value = .number number → EndsNumber rest

theorem readValue?_number {c : Char} (starts : c = '-' ∨ ∃ digit, c = digitChar digit)
    (text : List Char) :
    readValue? (fuel + 1) (c :: text) =
      (readNumber? (c :: text)).map fun (number, rest) => (.number number, rest) := by
  rcases starts with rfl | ⟨digit, rfl⟩
  · rfl
  · fin_cases digit <;> rfl

theorem SpellsNumber.starts {number : Number} {spelled : List Char}
    (spells : SpellsNumber number spelled) :
    ∃ c more, spelled = c :: more ∧ (c = '-' ∨ ∃ digit, c = digitChar digit) := by
  obtain @⟨negative, _, _, _, wholes, _, _, spellsWhole, -, -⟩ := spells
  obtain ⟨first, more, rfl⟩ := spellsWhole.head_isDigit
  cases negative with
  | true => exact ⟨'-', _, rfl, .inl rfl⟩
  | false => exact ⟨digitChar first, _, rfl, .inr ⟨first, rfl⟩⟩

/-- A value starts with a character that is neither a blank nor the end of a list. -/
theorem Spells.starts {Gap : List Char → Prop} {spelled : List Char} (spells : Spells Gap value spelled) :
    ∃ c more, spelled = c :: more ∧ isBlank c = false ∧ c ≠ ']' := by
  cases spells with
  | number spells =>
      obtain ⟨c, more, same, starts⟩ := spells.starts
      have visible : ∀ digit, isBlank (digitChar digit) = false ∧ digitChar digit ≠ ']' := by decide
      refine ⟨c, more, same, ?_⟩
      rcases starts with rfl | ⟨digit, rfl⟩
      · decide
      · exact visible digit
  | _ => exact ⟨_, _, rfl, by decide⟩

/-- What is spelled in front of a text is read, with enough fuel, and the rest is left. -/
structure Complete (fuel : Nat) : Prop where
  value : ∀ {value spelled} (rest), Spells Blanks value spelled → 2 * spelled.length ≤ fuel →
    Ends value rest → readValue? fuel (spelled ++ rest) = some (value, rest)
  items : ∀ {items spelled} (rest), SpellsItems Blanks items spelled → 2 * spelled.length < fuel →
    readItems? fuel (spelled ++ ']' :: rest) = some (items, rest)
  fields : ∀ {fields spelled} (rest), SpellsFields Blanks fields spelled →
    2 * spelled.length < fuel → readFields? fuel (spelled ++ '\x7d' :: rest) = some (fields, rest)

theorem readValue?_bracket (fuel : Nat) (text : List Char) :
    readValue? (fuel + 1) ('[' :: text) =
      match skipBlanks text with
      | ']' :: rest => some (.array [], rest)
      | rest => (readItems? fuel rest).map fun (items, rest) => (.array items, rest) := rfl

theorem readValue?_brace (fuel : Nat) (text : List Char) :
    readValue? (fuel + 1) ('\x7b' :: text) =
      match skipBlanks text with
      | '\x7d' :: rest => some (.object [], rest)
      | rest => (readFields? fuel rest).map fun (fields, rest) => (.object fields, rest) := rfl

theorem readValue?_array (opened : (skipBlanks text).head? ≠ some ']') :
    readValue? (fuel + 1) ('[' :: text) =
      (readItems? fuel text).map fun (items, rest) => (.array items, rest) := by
  rw [readValue?_bracket]
  split
  next same => exact absurd (congrArg List.head? same) opened
  next => rw [readItems?_skipBlanks]

theorem readValue?_object (opened : (skipBlanks text).head? ≠ some '\x7d') :
    readValue? (fuel + 1) ('\x7b' :: text) =
      (readFields? fuel text).map fun (fields, rest) => (.object fields, rest) := by
  rw [readValue?_brace]
  split
  next same => exact absurd (congrArg List.head? same) opened
  next => rw [readFields?_skipBlanks]

theorem SpellsItems.opens {items : List Value} {spelled : List Char}
    (spells : SpellsItems Blanks items spelled) (rest : List Char) :
    (skipBlanks (spelled ++ rest)).head? ≠ some ']' := by
  have item {value : Value} {text : List Char} (spells : SpellsItem Blanks value text) (rest : List Char) :
      (skipBlanks (text ++ rest)).head? ≠ some ']' := by
    obtain ⟨blank, spells, -⟩ := spells
    obtain ⟨c, more, rfl, visible, other⟩ := spells.starts
    rw [List.append_assoc, skipBlanks_append blank, List.append_assoc, List.cons_append,
      skipBlanks_cons visible]
    simpa using other
  cases spells with
  | last spells => exact item spells rest
  | more spells => exact List.append_assoc .. ▸ item spells _

theorem SpellsField.parts {Gap : List Char → Prop} {name : String} {spelled : List Char}
    (spells : SpellsField Gap (name, value) spelled) :
    ∃ before body after item, spelled = before ++ '"' :: (body ++ '"' :: (after ++ ':' :: item)) ∧
      Gap before ∧ SpellsString name.toList body ∧ Gap after ∧ SpellsItem Gap value item := by
  generalize same : (name, value) = field at spells
  obtain ⟨blank, named, blank', item⟩ := spells
  obtain ⟨rfl, rfl⟩ := same
  exact ⟨_, _, _, _, rfl, blank, by rwa [String.toList_ofList], blank', item⟩

theorem SpellsFields.opens {fields : List (String × Value)} {spelled : List Char}
    (spells : SpellsFields Blanks fields spelled) (rest : List Char) :
    (skipBlanks (spelled ++ rest)).head? ≠ some '\x7d' := by
  have field {field : String × Value} {text : List Char} (spells : SpellsField Blanks field text)
      (rest : List Char) : (skipBlanks (text ++ rest)).head? ≠ some '\x7d' := by
    obtain ⟨blank, -, -, -⟩ := spells
    rw [List.append_assoc, skipBlanks_append blank, List.cons_append, skipBlanks_cons rfl]
    simp
  cases spells with
  | last spells => exact field spells rest
  | more spells => exact List.append_assoc .. ▸ field spells _

theorem Complete.value_succ (complete : Complete fuel) {spelled : List Char} (rest : List Char)
    (spells : Spells Blanks value spelled) (enough : 2 * spelled.length ≤ fuel + 1)
    (ended : Ends value rest) : readValue? (fuel + 1) (spelled ++ rest) = some (value, rest) := by
  cases spells with
  | null => rfl
  | boolTrue => rfl
  | boolFalse => rfl
  | number spells =>
      obtain ⟨c, more, rfl, starts⟩ := spells.starts
      rw [List.cons_append, readValue?_number starts, ← List.cons_append,
        readNumber?_complete spells (ended _ rfl)]
      rfl
  | string spells =>
      rw [List.cons_append, List.append_assoc]
      change (readString? _).map _ = _
      rw [List.cons_append, readString?_complete spells]
      rfl
  | noItems blank =>
      rw [List.cons_append, List.append_assoc, readValue?_bracket, skipBlanks_append blank,
        List.cons_append, skipBlanks_cons rfl]
      rfl
  | array spells =>
      rw [List.cons_append, List.append_assoc, readValue?_array (spells.opens _), List.cons_append,
        complete.items _ spells (by simp at enough; omega)]
      rfl
  | noFields blank =>
      rw [List.cons_append, List.append_assoc, readValue?_brace, skipBlanks_append blank,
        List.cons_append, skipBlanks_cons rfl]
      rfl
  | object spells =>
      rw [List.cons_append, List.append_assoc, readValue?_object (spells.opens _), List.cons_append,
        complete.fields _ spells (by simp at enough; omega)]
      rfl

/-- Blanks, a comma and the end of a list end a number. -/
theorem endsNumber_of_blanks {blanks : List Char} (blank : Blanks blanks)
    (closed : EndsNumber rest) : EndsNumber (blanks ++ rest) := by
  cases blanks with
  | nil => exact closed
  | cons c blanks =>
      rintro c ⟨⟩
      have listed := blank c List.mem_cons_self
      simp only [List.mem_cons, List.not_mem_nil, or_false] at listed
      rcases listed with rfl | rfl | rfl | rfl <;> decide

theorem Complete.item (complete : Complete fuel) {spelled : List Char} (rest : List Char)
    (spells : SpellsItem Blanks value spelled) (enough : 2 * spelled.length ≤ fuel)
    (closed : EndsNumber rest) :
    ∃ left, readValue? fuel (spelled ++ rest) = some (value, left) ∧
      skipBlanks left = skipBlanks rest := by
  obtain @⟨_, before, text, after, blank, spells, blank'⟩ := spells
  refine ⟨after ++ rest, ?_, skipBlanks_append blank' rest⟩
  have read := complete.value (after ++ rest) spells (by simp at enough; omega)
    fun _ _ => endsNumber_of_blanks blank' closed
  rw [← readValue?_skipBlanks, List.append_assoc, List.append_assoc, skipBlanks_append blank,
    readValue?_skipBlanks, read]

theorem Complete.items_succ (complete : Complete fuel) {items : List Value} {spelled : List Char}
    (rest : List Char) (spells : SpellsItems Blanks items spelled)
    (enough : 2 * spelled.length < fuel + 1) :
    readItems? (fuel + 1) (spelled ++ ']' :: rest) = some (items, rest) := by
  cases spells with
  | last spells =>
      obtain ⟨left, read, next⟩ := complete.item (']' :: rest) spells (by omega)
        (by rintro c ⟨⟩; decide)
      rw [readItems?, read]
      dsimp only
      rw [next, skipBlanks_cons rfl]
      rfl
  | @more value items text later spells spells' =>
      rw [List.length_append, List.length_cons] at enough
      obtain ⟨left, read, next⟩ := complete.item (',' :: (later ++ ']' :: rest)) spells (by omega)
        (by rintro c ⟨⟩; decide)
      rw [List.append_assoc, List.cons_append, readItems?, read]
      dsimp only
      rw [next, skipBlanks_cons rfl]
      simp only [complete.items rest spells' (by omega), Option.map_some]

theorem readFields?_named {name body before after : List Char} (blank : Blanks before)
    (spells : SpellsString name body) (blank' : Blanks after) (fuel : Nat) (text : List Char) :
    readFields? (fuel + 1) (before ++ '"' :: (body ++ '"' :: (after ++ ':' :: text))) =
      match readValue? fuel text with
      | none => none
      | some (value, rest) =>
        match skipBlanks rest with
        | ',' :: rest =>
          (readFields? fuel rest).map fun (fields, rest) => ((.ofList name, value) :: fields, rest)
        | '\x7d' :: rest => some ([(.ofList name, value)], rest)
        | _ => none := by
  rw [← readFields?_skipBlanks, skipBlanks_append blank, skipBlanks_cons rfl, readFields?]
  simp only [skipBlanks_cons (c := '"') rfl, readString?_complete spells,
    skipBlanks_append blank']
  rfl

theorem Complete.field (complete : Complete fuel) {field : String × Value} {spelled : List Char}
    (rest : List Char) (spells : SpellsField Blanks field spelled)
    (enough : 2 * spelled.length ≤ fuel) (closed : EndsNumber rest) :
    ∃ left, skipBlanks left = skipBlanks rest ∧
      readFields? (fuel + 1) (spelled ++ rest) =
        match skipBlanks left with
        | ',' :: rest => (readFields? fuel rest).map fun (fields, rest) => (field :: fields, rest)
        | '\x7d' :: rest => some ([field], rest)
        | _ => none := by
  obtain @⟨name, body, before, after, text, value, blank, spellsName, blank', spells⟩ := spells
  have shorter : 2 * text.length ≤ fuel := by
    simp at enough
    omega
  obtain ⟨left, read, next⟩ := complete.item rest spells shorter closed
  have split : before ++ '"' :: (body ++ '"' :: (after ++ ':' :: text)) ++ rest =
      before ++ '"' :: (body ++ '"' :: (after ++ ':' :: (text ++ rest))) := by simp
  refine ⟨left, next, ?_⟩
  rw [split, readFields?_named blank spellsName blank', read]

theorem Complete.fields_succ (complete : Complete fuel) {fields : List (String × Value)}
    {spelled : List Char} (rest : List Char) (spells : SpellsFields Blanks fields spelled)
    (enough : 2 * spelled.length < fuel + 1) :
    readFields? (fuel + 1) (spelled ++ '\x7d' :: rest) = some (fields, rest) := by
  cases spells with
  | last spells =>
      obtain ⟨left, next, read⟩ := complete.field ('\x7d' :: rest) spells (by omega)
        (by rintro c ⟨⟩; decide)
      rw [read, next, skipBlanks_cons rfl]
      rfl
  | @more field fields text later spells spells' =>
      rw [List.length_append, List.length_cons] at enough
      obtain ⟨left, next, read⟩ := complete.field (',' :: (later ++ '\x7d' :: rest)) spells (by omega)
        (by rintro c ⟨⟩; decide)
      rw [List.append_assoc, List.cons_append, read, next, skipBlanks_cons rfl]
      simp only [complete.fields rest spells' (by omega), Option.map_some]

theorem complete (fuel : Nat) : Complete fuel := by
  induction fuel with
  | zero =>
      refine ⟨fun rest spells enough => ?_, fun _ _ enough => absurd enough (Nat.not_lt_zero _),
        fun _ _ enough => absurd enough (Nat.not_lt_zero _)⟩
      obtain ⟨c, more, rfl, -⟩ := spells.starts
      simp at enough
  | succ fuel ih => exact ⟨ih.value_succ, ih.items_succ, ih.fields_succ⟩

/-- The value in front of a text is the one that is spelled there. -/
theorem read?_sound (read : read? text = some (value, rest)) :
    ∃ before spelled, text = before ++ (spelled ++ rest) ∧ Blanks before ∧
      Spells Blanks value spelled :=
  (sound _).value read

theorem read?_complete {before spelled : List Char} (blank : Blanks before)
    (spells : Spells Blanks value spelled) (ended : Ends value rest) :
    read? (before ++ (spelled ++ rest)) = some (value, rest) := by
  rw [read?, ← readValue?_skipBlanks, skipBlanks_append blank, readValue?_skipBlanks]
  refine (complete _).value rest spells ?_ ended
  simp only [List.length_append]
  omega

/-- A text is read as a document exactly if it is one. -/
theorem document?_eq_some : document? text = some value ↔ Document value text := by
  constructor
  · intro read
    unfold document? at read
    split at read
    next found rest front =>
      split at read
      next blank =>
        cases read
        obtain ⟨before, spelled, rfl, blank', spells⟩ := read?_sound front
        exact .between blank' spells (skipBlanks_eq_nil.mp blank)
      next => cases read
    next => cases read
  · rintro @⟨_, before, spelled, after, blank, spells, blank'⟩
    have ended : EndsNumber after :=
      List.append_nil after ▸ endsNumber_of_blanks blank' (by rintro c ⟨⟩)
    rw [document?, read?_complete blank spells fun _ _ => ended]
    exact if_pos (skipBlanks_eq_nil.mpr blank')

/-- A text is the document of one value at most. -/
theorem Document.unique {other : Value} (spells : Document value text)
    (spells' : Document other text) : value = other := by
  rw [← document?_eq_some] at spells spells'
  exact Option.some.inj (spells.symm.trans spells')

end PolicyAcl.Json
