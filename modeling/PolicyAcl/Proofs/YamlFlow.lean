import PolicyAcl.Proofs.YamlNodes

/-! The tokens of a compact JSON text, read as YAML. Nothing of it belongs to a block collection,
no key that may start is required to be one, and so the text of a value adds the tokens of the
value and nothing else, unless it is refused. -/
namespace PolicyAcl.Yaml

open Json (Value Spells SpellsItem SpellsItems SpellsField SpellsFields SpellsString)

namespace Tokenizer

variable {t t' t'' : Tokenizer} {fuel n m : Nat} {tokens : List Token} {c : Char} {cs : List Char}

theorem tokens?_succ (found : tokens? fuel t = some tokens) : tokens? (fuel + 1) t = some tokens := by
  induction fuel generalizing t with
  | zero => cases found
  | succ fuel ih =>
      rw [tokens?] at found ⊢
      cases dropped : t.toNextToken.dropStale? with
      | none => simp [dropped] at found
      | some t =>
          simp only [dropped] at found ⊢
          split at found
          next ended => rw [if_pos ended, found]
          next goesOn =>
            rw [if_neg goesOn]
            cases moved : (t.closeBlocks (t.column + 1)).next? with
            | none => simp [moved] at found
            | some t =>
                simp only [moved] at found
                exact ih found

theorem tokens?_add (found : tokens? fuel t = some tokens) (n : Nat) :
    tokens? (fuel + n) t = some tokens := by
  induction n with
  | zero => exact found
  | succ n ih => exact tokens?_succ ih

/-- Some of at most `n` steps lead from one place to the other. -/
def Reaches (t : Tokenizer) (n : Nat) (t' : Tokenizer) : Prop :=
  ∃ k ≤ n, ∀ fuel, tokens? (fuel + k) t = tokens? fuel t'

def Fails (t : Tokenizer) : Prop := ∀ fuel, tokens? fuel t = none

theorem Reaches.trans (first : Reaches t n t') (second : Reaches t' m t'') : Reaches t (n + m) t'' := by
  obtain ⟨k, few, same⟩ := first
  obtain ⟨k', few', same'⟩ := second
  refine ⟨k' + k, by omega, fun fuel => ?_⟩
  rw [← Nat.add_assoc, same, same']

theorem Reaches.fails (reaches : Reaches t n t') (fails : Fails t') : Fails t := by
  intro fuel
  obtain ⟨k, -, same⟩ := reaches
  refine Option.eq_none_iff_forall_ne_some.mpr fun tokens found => ?_
  have later := tokens?_add found k
  rw [same, fails] at later
  cases later

/-- Outside of block collections, with no key that has to be one. -/
structure Flat (t : Tokenizer) : Prop where
  margin : t.margin = 0
  outer : t.outer = []
  free : ∀ candidate ∈ t.candidate :: t.enclosing, candidate.any (·.required) = false

/-- In front of a value. -/
structure Ready (t : Tokenizer) : Prop extends Flat t where
  candidate : t.candidate = none

/-- The candidate is given up if it is stale. -/
def settle (t : Tokenizer) : Tokenizer :=
  if t.candidate.any t.isStale then { t with candidate := none } else t

/-- A character that starts a token wherever it stands. -/
def isVisible (c : Char) : Bool := c ≠ byteOrderMark && !isBreak c && c ≠ '#' && !isBlank c

theorem toNextToken_visible (starts : t.rest = c :: cs) (visible : isVisible c = true) :
    t.toNextToken = t := by
  simp only [isVisible, Bool.and_eq_true, decide_eq_true_eq, Bool.not_eq_true'] at visible
  obtain ⟨⟨⟨mark, goesOn⟩, comment⟩, blank⟩ := visible
  simp only [isBlank, Bool.or_eq_false_iff, decide_eq_false_iff_not] at blank
  rw [toNextToken, starts, skipGap]
  simp [mark, goesOn, comment, blank, ← starts]

theorem Flat.forgetKey? (flat : Flat t) : t.forgetKey? = some { t with candidate := none } := by
  have free := flat.free _ List.mem_cons_self
  rw [Tokenizer.forgetKey?, free]
  rfl

theorem Flat.dropStale? (flat : Flat t) : t.dropStale? = some t.settle := by
  rw [Tokenizer.dropStale?, settle, flat.forgetKey?]
  split <;> rfl

theorem Flat.closeBlocks (flat : Flat t) (limit : Nat) : t.closeBlocks limit = t := by
  obtain ⟨rest, line, column, tokens, margin, outer, candidate, enclosing, keyAllowed⟩ := t
  obtain ⟨rfl, rfl, -⟩ := flat
  rw [Tokenizer.closeBlocks]
  split <;> rfl

theorem Flat.forget (flat : Flat t) : Flat { t with candidate := none } where
  margin := flat.margin
  outer := flat.outer
  free := List.forall_mem_cons.mpr ⟨rfl, (List.forall_mem_cons.mp flat.free).2⟩

theorem Flat.settle (flat : Flat t) : Flat t.settle := by
  rw [Tokenizer.settle]
  split
  · exact flat.forget
  · exact flat

theorem settle_rest : t.settle.rest = t.rest := by
  rw [settle]
  split <;> rfl

theorem Ready.settle (ready : Ready t) : t.settle = t := by
  rw [Tokenizer.settle, ready.candidate]
  rfl

/-- One step of the tokenizer. -/
theorem Flat.tokens? (flat : Flat t) (starts : t.rest = c :: cs) (visible : isVisible c = true)
    (fuel : Nat) :
    Tokenizer.tokens? (fuel + 1) t = t.settle.next?.bind fun t => Tokenizer.tokens? fuel t := by
  have more : t.settle.rest ≠ [] := by
    rw [settle_rest, starts]
    nofun
  rw [Tokenizer.tokens?, toNextToken_visible starts visible, flat.dropStale?]
  dsimp only
  rw [if_neg more, flat.settle.closeBlocks]
  cases t.settle.next? <;> rfl

theorem Flat.reaches (flat : Flat t) (starts : t.rest = c :: cs) (visible : isVisible c = true)
    (moved : t.settle.next? = some t') : Reaches t 1 t' := by
  refine ⟨1, le_rfl, fun fuel => ?_⟩
  rw [flat.tokens? starts visible, moved, Option.bind_some]

theorem Flat.fails (flat : Flat t) (starts : t.rest = c :: cs) (visible : isVisible c = true)
    (failed : t.settle.next? = none) : Fails t := by
  intro fuel
  cases fuel with
  | zero => rfl
  | succ fuel => rw [flat.tokens? starts visible, failed, Option.bind_none]

/-! The step at each character that a token of JSON starts with. -/

/-- The brackets of a flow collection, with their tokens. -/
inductive Brackets : Char → Token → Char → Token → Prop
  | sequence : Brackets '[' .flowSequenceStart ']' .flowSequenceEnd
  | mapping : Brackets '\x7b' .flowMappingStart '\x7d' .flowMappingEnd

variable {opening closing : Char} {start stop : Token}

theorem Brackets.next?_opening (brackets : Brackets opening start closing stop)
    (starts : t.rest = opening :: cs) : t.next? = t.openFlow? start := by
  rw [next?, starts]
  cases brackets <;> simp [isMarker_cons]

theorem Brackets.next?_closing (brackets : Brackets opening start closing stop)
    (starts : t.rest = closing :: cs) : t.next? = t.closeFlow? stop := by
  rw [next?, starts]
  cases brackets <;> simp [isMarker_cons]

theorem next?_comma (starts : t.rest = ',' :: cs) : t.next? = t.flowEntry? := by
  rw [next?, starts]
  simp [isMarker_cons]

theorem next?_colon (starts : t.rest = ':' :: cs) (inFlow : t.inFlow = true) : t.next? = t.value? := by
  rw [next?, starts]
  simp [isMarker_cons, inFlow]

theorem next?_quote (starts : t.rest = '"' :: cs) : t.next? = t.doubleQuoted? := by
  rw [next?, starts]
  simp [isMarker_cons]

/-- How a word or a number starts: with a letter or a digit, or with a hyphen in front of a
digit. -/
def startsWord : List Char → Bool
  | [] => false
  | c :: cs => isWord c || c = '-' && cs.head?.any isWord

/-- No word starts with a character that has a meaning of its own. -/
theorem isWord_unmarked (word : isWord c = true) :
    isFlowIndicator c = false ∧ c ∉ "-?:.%*&|>\x27\"#!@\x60".toList :=
  isWord_cases (P := fun c => isFlowIndicator c = false ∧ c ∉ "-?:.%*&|>\x27\"#!@\x60".toList)
    (by decide) word

theorem next?_word {word : List Char} (starts : t.rest = word) (begins : startsWord word = true) :
    t.next? = t.plain? := by
  cases word with
  | nil => cases begins
  | cons c cs =>
      simp only [startsWord, Bool.or_eq_true, Bool.and_eq_true, decide_eq_true_eq] at begins
      rw [next?, starts]
      rcases begins with word | ⟨rfl, digit⟩
      · obtain ⟨-, visible, goesOn⟩ := isWord_visible word
        obtain ⟨inside, unmarked⟩ := isWord_unmarked word
        have plain : startsPlain t.inFlow c cs = true := by
          simp only [String.reduceToList, List.mem_cons, not_or] at unmarked
          simp [startsPlain, visible, goesOn, inside, unmarked]
        simp only [isFlowIndicator, Bool.or_eq_false_iff, decide_eq_false_iff_not] at inside
        simp only [String.reduceToList, List.mem_cons, not_or] at unmarked
        simp [isMarker_cons, plain, inside, unmarked]
      · cases cs with
        | nil => cases digit
        | cons d ds =>
            have word : isWord d = true := digit
            obtain ⟨-, visible, goesOn⟩ := isWord_visible word
            have continues : endsWord (d :: ds) = false := by rw [endsWord, visible, goesOn]; rfl
            have marked : isMarker '-' ('-' :: d :: ds) = false := by
              have other : d ≠ '-' := by
                rintro rfl
                cases word
              cases ds <;> simp [isMarker, other]
            simp [marked, isMarker_cons, continues, startsPlain]

/-! What each step does. -/

/-- One place after another with a text between them that adds tokens. -/
structure After (t : Tokenizer) (rest : List Char) (tokens : List Token) (t' : Tokenizer) : Prop extends
    Flat t' where
  rest : t'.rest = rest
  tokens : t'.tokens = tokens.reverse ++ t.tokens
  enclosing : t'.enclosing = t.enclosing

theorem After.trans {rest rest' : List Char} {more : List Token} (first : After t rest tokens t')
    (second : After t' rest' more t'') : After t rest' (tokens ++ more) t'' where
  toFlat := second.toFlat
  rest := second.rest
  tokens := by rw [second.tokens, first.tokens, List.reverse_append, List.append_assoc]
  enclosing := second.enclosing.trans first.enclosing

/-- The key that may start here. -/
def noted (t : Tokenizer) : Option Candidate := if t.keyAllowed then some t.candidateHere else none

theorem Ready.noteKey? (ready : Ready t) : t.noteKey? = some { t with candidate := t.noted } := by
  rw [Tokenizer.noteKey?, noted]
  split
  · rw [ready.toFlat.forgetKey?]
    rfl
  · rw [← ready.candidate]

theorem Flat.noted (flat : Flat t) : t.noted.any (·.required) = false := by
  rw [Tokenizer.noted]
  split
  · simp [candidateHere, flat.margin]
  · rfl

/-- The inside of a flow collection that starts at a place. -/
structure Inside (t : Tokenizer) (start : Token) (t' : Tokenizer) : Prop extends Ready t' where
  tokens : t'.tokens = start :: t.tokens
  tail : t'.enclosing.tail = t.enclosing
  inFlow : t'.inFlow = true
  keyAllowed : t'.keyAllowed = true

theorem Ready.openFlow (ready : Ready t) (brackets : Brackets opening start closing stop)
    (starts : t.rest = opening :: cs) : ∃ t', Reaches t 1 t' ∧ t'.rest = cs ∧ Inside t start t' := by
  have visible : isVisible opening = true := by cases brackets <;> rfl
  have moved : t.settle.next? = some ({ t with
      candidate := none
      enclosing := t.noted :: t.enclosing
      keyAllowed := true } |>.emit start |>.advance 1) := by
    rw [ready.settle, brackets.next?_opening starts, openFlow?, ready.noteKey?]
    rfl
  refine ⟨_, ready.toFlat.reaches starts visible moved, by simp [advance, emit, starts], ?_⟩
  exact {
    margin := ready.margin
    outer := ready.outer
    free := List.forall_mem_cons.mpr ⟨rfl, List.forall_mem_cons.mpr ⟨ready.toFlat.noted,
      (List.forall_mem_cons.mp ready.free).2⟩⟩
    candidate := rfl
    tokens := rfl
    tail := rfl
    inFlow := rfl
    keyAllowed := rfl }

theorem Flat.closeFlow (flat : Flat t) (brackets : Brackets opening start closing stop)
    (starts : t.rest = closing :: cs) :
    ∃ t', Reaches t 1 t' ∧ Flat t' ∧ t'.rest = cs ∧ t'.tokens = stop :: t.tokens ∧
      t'.enclosing = t.enclosing.tail := by
  have visible : isVisible closing = true := by cases brackets <;> rfl
  have moved : t.settle.next? = some ({ t with
      candidate := t.enclosing.head?.join
      enclosing := t.enclosing.tail
      keyAllowed := false } |>.emit stop |>.advance 1) := by
    rw [brackets.next?_closing (settle_rest.trans starts), closeFlow?, flat.settle.forgetKey?,
      Tokenizer.settle]
    split <;> rfl
  refine ⟨_, flat.reaches starts visible moved, ?_, by simp [advance, emit, starts], rfl, rfl⟩
  refine ⟨flat.margin, flat.outer, ?_⟩
  have free := (List.forall_mem_cons.mp flat.free).2
  change ∀ candidate ∈ t.enclosing.head?.join :: t.enclosing.tail, candidate.any (·.required) = false
  cases h : t.enclosing with
  | nil => simp
  | cons candidate more =>
      rw [h] at free
      exact free

theorem Flat.comma (flat : Flat t) (starts : t.rest = ',' :: cs) :
    ∃ t', Reaches t 1 t' ∧ Ready t' ∧ t'.keyAllowed = true ∧ After t cs [.flowEntry] t' := by
  have moved : t.settle.next? = some ({ t with candidate := none, keyAllowed := true }
      |>.emit .flowEntry |>.advance 1) := by
    rw [next?_comma (settle_rest.trans starts), flowEntry?, flat.settle.forgetKey?, Tokenizer.settle]
    split <;> rfl
  have forgotten : Flat ({ t with candidate := none, keyAllowed := true }
      |>.emit .flowEntry |>.advance 1) :=
    ⟨flat.margin, flat.outer, List.forall_mem_cons.mpr ⟨rfl, (List.forall_mem_cons.mp flat.free).2⟩⟩
  refine ⟨_, flat.reaches starts rfl moved, ⟨forgotten, rfl⟩, rfl, forgotten, ?_, rfl, rfl⟩
  simp [advance, emit, starts]

/-- A scalar is followed by what its reader leaves. -/
theorem Ready.afterScalar (ready : Ready t) (style : Style) (scanned : Scanned) (keyAllowed : Bool) :
    After t scanned.rest [.scalar style (.ofList scanned.text)]
      ({ t with candidate := t.noted }.afterScalar style scanned keyAllowed) where
  margin := ready.margin
  outer := ready.outer
  free := List.forall_mem_cons.mpr ⟨ready.toFlat.noted, (List.forall_mem_cons.mp ready.free).2⟩
  rest := rfl
  tokens := rfl
  enclosing := rfl

theorem startsWord_append {word : List Char} (begins : startsWord word = true) (rest : List Char) :
    startsWord (word ++ rest) = true := by
  rcases word with - | ⟨c, - | ⟨d, word⟩⟩
  · cases begins
  · simp only [startsWord, List.head?_nil, Option.any_none, Bool.and_false, Bool.or_false] at begins
    simp [startsWord, begins]
  · exact begins

theorem isVisible_of_startsWord (begins : startsWord (c :: cs) = true) : isVisible c = true := by
  simp only [startsWord, Bool.or_eq_true, Bool.and_eq_true, decide_eq_true_eq] at begins
  rcases begins with word | ⟨rfl, -⟩
  · exact isWord_cases (P := fun c => isVisible c = true) (by decide) word
  · decide

theorem Ready.word (ready : Ready t) {word rest : List Char} (begins : startsWord word = true)
    (plain : ∀ c ∈ word, isPlain c = true) (starts : t.rest = word ++ rest)
    (delimited : Delimited t.inFlow rest) :
    ∃ t', Reaches t 1 t' ∧ After t rest [.scalar .plain (.ofList word)] t' := by
  have moved : t.settle.next? = some ({ t with candidate := t.noted }.afterScalar .plain
      { text := word, rest, line := t.line, column := t.column + word.length } false) := by
    rw [ready.settle, next?_word starts (startsWord_append begins rest), plain?, ready.noteKey?]
    simp only [Option.bind_eq_bind, Option.bind_some, starts, ready.margin]
    have read := readPlain_word plain delimited t.line t.column []
    simp only [inFlow] at read ⊢
    rw [read]
    rfl
  have after := ready.afterScalar .plain
    { text := word, rest, line := t.line, column := t.column + word.length } false
  refine ⟨_, ?_, after⟩
  cases word with
  | nil => cases begins
  | cons c cs => exact ready.toFlat.reaches starts (isVisible_of_startsWord begins) moved

theorem isKey_wordy {chars : List Char} (key : IsKey (.ofList chars)) :
    Wordy chars ∧ chars.length ≤ 8 := by
  have all : ∀ name ∈ [Config.familiesKey, Config.ipv4Key, Config.ipv6Key],
      Wordy name.toList ∧ name.toList.length ≤ 8 := by decide +kernel
  simpa using all _ key

/-- A string is refused, or read as one that is the same key. -/
theorem Ready.quoted (ready : Ready t) {chars body rest : List Char} (spells : SpellsString chars body)
    (starts : t.rest = '"' :: (body.map unifyBreak ++ '"' :: rest)) :
    (Fails t ∧ ¬IsKey (.ofList chars)) ∨
      ∃ text t', Reaches t 1 t' ∧ After t rest [.scalar .doubleQuoted text] t' ∧
        SameKey (.ofList chars) text ∧ t'.candidate = t.noted ∧
        (IsKey (.ofList chars) → t'.line = t.line ∧ t'.column ≤ t.column + 1024) := by
  have moved : t.settle.next? =
      (readDoubleQuoted (body.map unifyBreak ++ '"' :: rest) t.line (t.column + 1) {} []).map
        fun scanned => { t with candidate := t.noted }.afterScalar .doubleQuoted scanned false := by
    rw [ready.settle, next?_quote starts, doubleQuoted?, ready.noteKey?]
    simp only [Option.bind_eq_bind, Option.bind_some, starts, List.tail_cons]
    cases readDoubleQuoted (body.map unifyBreak ++ '"' :: rest) t.line (t.column + 1) {} [] <;> rfl
  have read := readDoubleQuoted_spelled spells rest t.line (Nat.succ_pos t.column)
  revert moved
  generalize readDoubleQuoted (body.map unifyBreak ++ '"' :: rest) t.line (t.column + 1) {} [] = found
    at read
  intro moved
  cases read with
  | refused odd =>
      exact .inl ⟨ready.toFlat.fails starts rfl moved, fun key => odd (isKey_wordy key).1⟩
  | @other scanned odd odd' left =>
      refine .inr ⟨_, _, ready.toFlat.reaches starts rfl moved, left ▸ ready.afterScalar _ scanned _, ?_,
        rfl, fun key => absurd (isKey_wordy key).1 odd⟩
      intro key known
      constructor
      · rintro rfl
        exact absurd (isKey_wordy known).1 odd'
      · rintro rfl
        exact absurd (isKey_wordy known).1 odd
  | exact =>
      refine .inr ⟨_, _, ready.toFlat.reaches starts rfl moved,
        ready.afterScalar _ { text := chars, rest, line := _, column := _ } _, fun _ _ => Iff.rfl, rfl,
        fun key => ⟨rfl, ?_⟩⟩
      have short := body_length_le spells
      have few := (isKey_wordy key).2
      change t.column + 1 + body.length + 1 ≤ _
      omega

/-- A colon marks the candidate as a key, unless it is stale. -/
theorem Flat.colon (flat : Flat t) (inFlow : t.inFlow = true) (starts : t.rest = ':' :: cs)
    {candidate : Candidate} (noted : t.candidate = some candidate) :
    ∃ t', Reaches t 1 t' ∧ Ready t' ∧ t'.rest = cs ∧ t'.enclosing = t.enclosing ∧
      (t'.tokens = .value :: (t.insertToken candidate.before .key).tokens ∨
        t.isStale candidate = true ∧ t'.tokens = .value :: t.tokens) := by
  have free := (List.forall_mem_cons.mp flat.free).2
  have ready {tokens : List Token} : Ready ({ t with tokens, candidate := none, keyAllowed := false }
      |>.emit .value |>.advance 1) :=
    ⟨⟨flat.margin, flat.outer, List.forall_mem_cons.mpr ⟨rfl, free⟩⟩, rfl⟩
  cases stale : t.isStale candidate with
  | true =>
      have moved : t.settle.next? = some ({ t with candidate := none, keyAllowed := false }
          |>.emit .value |>.advance 1) := by
        have settled : t.settle = { t with candidate := none } := by
          rw [Tokenizer.settle, noted, Option.any_some, if_pos stale]
        have inside : Tokenizer.inFlow { t with candidate := none } = true := inFlow
        rw [settled, next?_colon (t := { t with candidate := none }) starts inside, value?]
        simp [startBlock?, inside]
      exact ⟨_, flat.reaches starts rfl moved, ready, by simp [advance, emit, starts], rfl, .inr ⟨rfl, rfl⟩⟩
  | false =>
      have moved : t.settle.next? = some ({ t with
          tokens := (t.insertToken candidate.before .key).tokens, candidate := none, keyAllowed := false }
          |>.emit .value |>.advance 1) := by
        have settled : t.settle = t := by
          rw [Tokenizer.settle, noted, Option.any_some, stale]
          rfl
        rw [settled, next?_colon starts inFlow, value?, noted]
        simp [openBlock, insertToken, Tokenizer.inFlow] at inFlow ⊢
        simp [inFlow]
      exact ⟨_, flat.reaches starts rfl moved, ready, by simp [advance, emit, starts], rfl, .inl rfl⟩

/-- A name and its colon. Only a name that is no key can be too long, or go over a line, before
the colon marks it. -/
theorem Ready.key (ready : Ready t) (inFlow : t.inFlow = true) (keyAllowed : t.keyAllowed = true)
    {chars body rest : List Char} (spells : SpellsString chars body)
    (starts : t.rest = '"' :: (body.map unifyBreak ++ '"' :: ':' :: rest)) :
    (Fails t ∧ ¬IsKey (.ofList chars)) ∨
      ∃ text t', Reaches t 2 t' ∧ Ready t' ∧ SameKey (.ofList chars) text ∧
        (After t rest [.key, .scalar .doubleQuoted text, .value] t' ∨
          ¬IsKey (.ofList chars) ∧ After t rest [.scalar .doubleQuoted text, .value] t') := by
  obtain failed | ⟨text, t', reaches, after, same, noted, place⟩ := ready.quoted spells starts
  · exact .inl failed
  have inside : t'.inFlow = true := by rwa [Tokenizer.inFlow, after.enclosing]
  have found : t'.candidate = some t.candidateHere := by rw [noted, Tokenizer.noted, if_pos keyAllowed]
  obtain ⟨t'', reaches', ready', left, enclosing, emitted⟩ := after.toFlat.colon inside after.rest found
  refine .inr ⟨text, t'', reaches.trans reaches', ready', same, ?_⟩
  have tokens := after.tokens
  rcases emitted with marked | ⟨stale, late⟩
  · refine .inl ⟨ready'.toFlat, left, ?_, enclosing.trans after.enclosing⟩
    rw [marked, insertToken, tokens]
    simp [candidateHere]
  · refine .inr ⟨fun key => ?_, ready'.toFlat, left, ?_, enclosing.trans after.enclosing⟩
    · obtain ⟨line, column⟩ := place key
      rcases Bool.or_eq_true_iff.mp stale with later | far
      · exact absurd (of_decide_eq_true later) (Nat.not_lt_of_le line.le)
      · exact absurd (of_decide_eq_true far) (Nat.not_lt_of_le column)
    · rw [late, tokens]
      rfl

/-! What comes of a text, of which the parts are put together. -/

/-- A text is refused, if something in it is bad, or passed over and read as good tokens. -/
def Yields (t : Tokenizer) (n : Nat) (rest : List Char) (good : List Token → Prop) (bad : Prop) : Prop :=
  (Fails t ∧ bad) ∨ ∃ read t', good read ∧ Reaches t n t' ∧ After t rest read t'

variable {rest rest' : List Char} {good good' : List Token → Prop} {bad bad' : Prop}

theorem Yields.imp (yields : Yields t n rest good bad) (better : ∀ read, good read → good' read)
    (worse : bad → bad') : Yields t n rest good' bad' := by
  obtain ⟨fails, broken⟩ | ⟨read, t', fine, reaches, after⟩ := yields
  · exact .inl ⟨fails, worse broken⟩
  · exact .inr ⟨read, t', better read fine, reaches, after⟩

theorem Yields.of_reaches {read : List Token} (reaches : Reaches t n t') (after : After t rest read t')
    (yields : Yields t' m rest' (fun more => good (read ++ more)) bad) :
    Yields t (n + m) rest' good bad := by
  obtain ⟨fails, broken⟩ | ⟨more, t'', fine, reaches', after'⟩ := yields
  · exact .inl ⟨reaches.fails fails, broken⟩
  · exact .inr ⟨_, t'', fine, reaches.trans reaches', after.trans after'⟩

theorem Yields.bind (yields : Yields t n rest good bad) (worse : bad → bad')
    (next : ∀ read t', good read → After t rest read t' →
      Yields t' m rest' (fun more => good' (read ++ more)) bad') :
    Yields t (n + m) rest' good' bad' := by
  obtain ⟨fails, broken⟩ | ⟨read, t', fine, reaches, after⟩ := yields
  · exact .inl ⟨fails, worse broken⟩
  · exact .of_reaches reaches after (next read t' fine after)

/-- What stands in front of a comma and what follows it. -/
theorem Yields.comma (yields : Yields t n (',' :: rest) good bad) (worse : bad → bad')
    (next : ∀ read t', good read → Ready t' → t'.inFlow = t.inFlow → t'.keyAllowed = true →
      t'.rest = rest → Yields t' m rest' (fun more => good' (read ++ .flowEntry :: more)) bad') :
    Yields t (n + (1 + m)) rest' good' bad' := by
  refine yields.bind worse fun read t' fine after => ?_
  obtain ⟨t'', reaches, ready, keyAllowed, after'⟩ := after.toFlat.comma after.rest
  refine .of_reaches reaches after' (next read t'' fine ready ?_ keyAllowed after'.rest)
  rw [inFlow, inFlow, after'.enclosing, after.enclosing]

theorem Reaches.mono (reaches : Reaches t n t') (more : n ≤ m) : Reaches t m t' := by
  obtain ⟨k, few, same⟩ := reaches
  exact ⟨k, few.trans more, same⟩

/-! The values of JSON, with nothing between their tokens. -/

variable {value : Value} {spelled : List Char}

theorem map_unifyBreak_plain {word : List Char} (plain : ∀ c ∈ word, isPlain c = true) :
    word.map unifyBreak = word := by
  have kept (c : Char) (member : c ∈ word) : unifyBreak c = id c := by
    have here := plain c member
    simp only [isPlain, Bool.and_eq_true, decide_eq_true_eq] at here
    exact here.2
  rw [List.map_congr_left kept, List.map_id]

/-- A word or a number. -/
theorem Ready.scans_word (ready : Ready t) {word : List Char} (begins : startsWord word = true)
    (plain : word.all isPlain) (starts : t.rest = word.map unifyBreak ++ rest)
    (delimited : Delimited t.inFlow rest) (like : Like value (.scalar none .plain (.ofList word))) :
    Yields t word.length rest (Reads value) (Strange value) := by
  rw [List.all_eq_true] at plain
  rw [map_unifyBreak_plain plain] at starts
  obtain ⟨t', reaches, after⟩ := ready.word begins plain starts delimited
  have some : 1 ≤ word.length := by cases word <;> simp [startsWord] at begins ⊢
  exact .inr ⟨_, t', .scalar like, reaches.mono some, after⟩

/-- A string. -/
theorem Ready.scans_string (ready : Ready t) {chars body : List Char} (spells : SpellsString chars body)
    (starts : t.rest = ('"' :: (body ++ ['"'])).map unifyBreak ++ rest) :
    Yields t ('"' :: (body ++ ['"'])).length rest (Reads (.string (.ofList chars)))
      (Strange (.string (.ofList chars))) := by
  have split : t.rest = '"' :: (body.map unifyBreak ++ '"' :: rest) := by
    rw [starts]
    simp [unifyBreak]
  obtain ⟨fails, other⟩ | ⟨text, t', reaches, after, -, -, -⟩ := ready.quoted spells split
  · exact .inl ⟨fails, .string other⟩
  · exact .inr ⟨_, t', .scalar .string, reaches.mono (by simp), after⟩

/-- A flow collection from what is inside its brackets. -/
theorem Ready.scans_collection (ready : Ready t) (brackets : Brackets opening start closing stop)
    {inner : List Char} (starts : t.rest = (opening :: (inner ++ [closing])).map unifyBreak ++ rest)
    (inside : ∀ t', Ready t' → t'.inFlow = true → t'.keyAllowed = true →
      t'.rest = inner.map unifyBreak ++ closing :: rest →
        Yields t' inner.length (closing :: rest) good bad)
    (better : ∀ read, good read → good' (start :: (read ++ [stop]))) :
    Yields t (opening :: (inner ++ [closing])).length rest good' bad := by
  have split : t.rest = opening :: (inner.map unifyBreak ++ closing :: rest) := by
    rw [starts]
    cases brackets <;> simp [unifyBreak]
  obtain ⟨t₁, reaches, left, opened⟩ := ready.openFlow brackets split
  obtain ⟨fails, broken⟩ | ⟨within, t₂, fine, reaches', after⟩ :=
    inside t₁ opened.toReady opened.inFlow opened.keyAllowed left
  · exact .inl ⟨reaches.fails fails, broken⟩
  obtain ⟨t₃, reaches'', flat, left', tokens, enclosing⟩ := after.toFlat.closeFlow brackets after.rest
  refine .inr ⟨_, t₃, better within fine, ?_, flat, left', ?_, ?_⟩
  · exact ((reaches.trans reaches').trans reaches'').mono (by simp; omega)
  · rw [tokens, after.tokens, opened.tokens]
    simp
  · rw [enclosing, after.enclosing, opened.tail]

/-- Nothing inside of brackets. -/
theorem Ready.scans_nothing (ready : Ready t) (left : t.rest = rest) :
    Yields t ([] : List Char).length rest (· = []) bad :=
  .inr ⟨[], t, rfl, ⟨0, le_rfl, fun _ => rfl⟩, ready.toFlat, left, rfl, rfl⟩

theorem delimited_of_indicator {inFlow : Bool} (inside : inFlow = true)
    (indicator : isFlowIndicator c = true) : Delimited inFlow (c :: rest) := by
  rintro _ ⟨⟩
  exact ⟨inside, indicator⟩

end Tokenizer

open Tokenizer

theorem number_startsWord {number : Json.Number} {spelled : List Char}
    (spells : Json.SpellsNumber number spelled) : startsWord spelled = true := by
  have digit : ∀ digit, isWord (Json.digitChar digit) = true := by decide
  obtain @⟨negative, _, _, _, wholes, _, _, whole, -, -⟩ := spells
  obtain ⟨first, more, rfl⟩ := whole.head_isDigit
  cases negative <;> simp [startsWord, digit]

mutual

theorem scans_value {value : Value} {spelled rest : List Char} {t : Tokenizer}
    (spells : Spells Json.Compact value spelled) (ready : Ready t)
    (starts : t.rest = spelled.map unifyBreak ++ rest) (delimited : Delimited t.inFlow rest) :
    Yields t spelled.length rest (Reads value) (Strange value) := by
  cases spells with
  | null => exact ready.scans_word (by decide) (by decide) starts delimited .null
  | boolTrue => exact ready.scans_word (by decide) (by decide) starts delimited .boolTrue
  | boolFalse => exact ready.scans_word (by decide) (by decide) starts delimited .boolFalse
  | number spells =>
      have begins := number_startsWord spells
      have numeral := numeral_number spells
      refine ready.scans_word begins (numeral.all (by decide)) starts delimited
        (.number ?_ (by rwa [String.toList_ofList]))
      rintro empty
      rw [String.ofList_eq_empty_iff.mp empty] at begins
      cases begins
  | string spells => exact ready.scans_string spells starts
  | noItems none =>
      obtain rfl := none
      refine ready.scans_collection .sequence starts
        (fun t' ready' _ _ left => ready'.scans_nothing left) ?_
      rintro _ rfl
      exact .noItems
  | array spells =>
      exact ready.scans_collection .sequence starts
        (fun t' ready' inFlow _ left => scans_items spells ready' inFlow left) fun _ reads => .array reads
  | noFields none =>
      obtain rfl := none
      refine ready.scans_collection .mapping starts
        (fun t' ready' _ _ left => ready'.scans_nothing left) ?_
      rintro _ rfl
      exact .noFields
  | object spells =>
      exact ready.scans_collection .mapping starts
        (fun t' ready' inFlow keyAllowed left => scans_fields spells ready' inFlow keyAllowed left)
        fun _ reads => .object reads

theorem scans_item {value : Value} {spelled rest : List Char} {t : Tokenizer}
    (spells : SpellsItem Json.Compact value spelled) (ready : Ready t)
    (starts : t.rest = spelled.map unifyBreak ++ rest) (delimited : Delimited t.inFlow rest) :
    Yields t spelled.length rest (Reads value) (Strange value) := by
  cases spells with
  | between none spells none' =>
      obtain rfl := none
      obtain rfl := none'
      rw [List.nil_append, List.append_nil] at starts ⊢
      exact scans_value spells ready starts delimited

theorem scans_items {items : List Value} {spelled rest : List Char} {t : Tokenizer}
    (spells : SpellsItems Json.Compact items spelled) (ready : Ready t) (inFlow : t.inFlow = true)
    (starts : t.rest = spelled.map unifyBreak ++ ']' :: rest) :
    Yields t spelled.length (']' :: rest) (ReadsItems items) (Strange (.array items)) := by
  cases spells with
  | last spells =>
      exact (scans_item spells ready starts (delimited_of_indicator inFlow rfl)).imp
        (fun _ reads => .last reads) fun strange => .item List.mem_cons_self strange
  | @more value items text later spells spells' =>
      have size : (text ++ ',' :: later).length = text.length + (1 + later.length) := by simp; omega
      have split : t.rest = text.map unifyBreak ++ ',' :: (later.map unifyBreak ++ ']' :: rest) := by
        rw [starts]
        simp [unifyBreak]
      rw [size]
      refine (scans_item spells ready split (delimited_of_indicator inFlow rfl)).comma
        (fun strange => .item List.mem_cons_self strange) fun read t' reads ready' same _ left => ?_
      exact (scans_items spells' ready' (same.trans inFlow) left).imp (fun _ reads' => .more reads reads')
        fun strange => strange.more_items (List.subset_cons_self _ _)

theorem scans_field {field : String × Value} {spelled rest : List Char} {t : Tokenizer}
    (spells : SpellsField Json.Compact field spelled) (ready : Ready t) (inFlow : t.inFlow = true)
    (keyAllowed : t.keyAllowed = true) (starts : t.rest = spelled.map unifyBreak ++ rest)
    (delimited : Delimited true rest) :
    Yields t spelled.length rest (FieldTokens field) (Strange (.object [field])) := by
  cases spells with
  | @named name body before after text value none named none' spells =>
      obtain rfl := none
      obtain rfl := none'
      have size : ([] ++ '"' :: (body ++ '"' :: ([] ++ ':' :: text))).length =
          (body.length + 3) + text.length := by
        simp
        omega
      have split : t.rest =
          '"' :: (body.map unifyBreak ++ '"' :: ':' :: (text.map unifyBreak ++ rest)) := by
        rw [starts]
        simp [unifyBreak]
      rw [size]
      obtain ⟨fails, other⟩ | ⟨said, t', reaches, ready', same, after⟩ :=
        ready.key inFlow keyAllowed named split
      · exact .inl ⟨fails, .name List.mem_cons_self other⟩
      have reaches : Reaches t (body.length + 3) t' := reaches.mono (by omega)
      have item {tokens : List Token} (after : After t (text.map unifyBreak ++ rest) tokens t') :
          Yields t' text.length rest (Reads value) (Strange value) := by
        refine scans_item spells ready' after.rest ?_
        rwa [Tokenizer.inFlow, after.enclosing, ← Tokenizer.inFlow, inFlow]
      rcases after with after | ⟨other, after⟩
      · exact .of_reaches reaches after ((item after).imp (fun _ reads => .key same reads)
          fun strange => .field List.mem_cons_self strange)
      · exact .of_reaches reaches after ((item after).imp (fun _ _ => .late other)
          fun strange => .field List.mem_cons_self strange)

theorem scans_fields {fields : List (String × Value)} {spelled rest : List Char} {t : Tokenizer}
    (spells : SpellsFields Json.Compact fields spelled) (ready : Ready t) (inFlow : t.inFlow = true)
    (keyAllowed : t.keyAllowed = true) (starts : t.rest = spelled.map unifyBreak ++ '\x7d' :: rest) :
    Yields t spelled.length ('\x7d' :: rest) (ReadsFields fields) (Strange (.object fields)) := by
  cases spells with
  | last spells =>
      exact (scans_field spells ready inFlow keyAllowed starts (delimited_of_indicator rfl rfl)).imp
        (fun _ tokens => .last tokens) id
  | @more field fields text later spells spells' =>
      have size : (text ++ ',' :: later).length = text.length + (1 + later.length) := by simp; omega
      have split : t.rest = text.map unifyBreak ++ ',' :: (later.map unifyBreak ++ '\x7d' :: rest) := by
        rw [starts]
        simp [unifyBreak]
      rw [size]
      refine (scans_field spells ready inFlow keyAllowed split (delimited_of_indicator rfl rfl)).comma
        (fun strange => strange.more_fields (by simp)) fun read t' tokens ready' same keyAllowed' left => ?_
      exact (scans_fields spells' ready' (same.trans inFlow) keyAllowed' left).imp
        (fun _ reads => .more tokens reads) fun strange => strange.more_fields (List.subset_cons_self _ _)

end

end PolicyAcl.Yaml
