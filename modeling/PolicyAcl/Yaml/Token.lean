import PolicyAcl.Yaml.Scalar

/-! Tokens of a YAML text. Whether a token is a mapping key may be known only at
a later colon, so the tokenizer remembers where a key may have started and puts
the key token there once the colon is met. Such a key is on one line and starts
at most 1024 characters before the colon. Tags and directives are refused. -/
namespace PolicyAcl.Yaml

inductive Token where
  | documentStart
  | documentEnd
  | blockSequenceStart
  | blockMappingStart
  | blockEnd
  | flowSequenceStart
  | flowSequenceEnd
  | flowMappingStart
  | flowMappingEnd
  | blockEntry
  | flowEntry
  | key
  | value
  | anchor (name : String)
  | reference (name : String)
  | scalar (style : Style) (text : String)
deriving DecidableEq, Repr

/-- A place where a key may have started: how many tokens came before it, and
whether nothing but a key can stand there. Giving up a required key is a fault. -/
structure Candidate where
  before : Nat
  line : Nat
  column : Nat
  required : Bool
deriving DecidableEq, Repr

/-- A tokenizer at some place of a text. Tokens are kept with the latest first.
`margin` is one more than the column of the innermost block collection, and zero
outside of any; `outer` holds the margins around it. `candidate` is the possible
key at this level, and `enclosing` holds those of the levels around each open
flow collection. -/
structure Tokenizer where
  rest : List Char
  line : Nat := 0
  column : Nat := 0
  tokens : List Token := []
  margin : Nat := 0
  outer : List Nat := []
  candidate : Option Candidate := none
  enclosing : List (Option Candidate) := []
  keyAllowed : Bool := true

namespace Tokenizer

def inFlow (t : Tokenizer) : Bool := !t.enclosing.isEmpty

def emit (token : Token) (t : Tokenizer) : Tokenizer := { t with tokens := token :: t.tokens }

def advance (n : Nat) (t : Tokenizer) : Tokenizer :=
  { t with rest := t.rest.drop n, column := t.column + n }

def insertToken (before : Nat) (token : Token) (t : Tokenizer) : Tokenizer :=
  let late := t.tokens.length - before
  { t with tokens := t.tokens.take late ++ token :: t.tokens.drop late }

/-- What is left after blanks, comments and line breaks, with its line and column
and whether a key may start there. Outside flow collections, a tab is passed over
only where no key may start, and a key may start on every new line. One byte-order
mark is passed over at the start of a line, of which it takes up the first column. -/
def skipGap (inFlow : Bool) : List Char → Nat → Nat → (keyAllowed comment : Bool) →
    List Char × Nat × Nat × Bool
  | [], line, column, keyAllowed, _ => ([], line, column, keyAllowed)
  | c :: cs, line, column, keyAllowed, comment =>
    if column = 0 && c = byteOrderMark then skipGap inFlow cs line 1 keyAllowed false
    else if isBreak c then skipGap inFlow cs (line + 1) 0 (keyAllowed || !inFlow) false
    else if comment || c = '#' then skipGap inFlow cs line (column + 1) keyAllowed true
    else if c = ' ' || c = '\t' && (inFlow || !keyAllowed) then
      skipGap inFlow cs line (column + 1) keyAllowed false
    else (c :: cs, line, column, keyAllowed)

def toNextToken (t : Tokenizer) : Tokenizer :=
  let (rest, line, column, keyAllowed) := skipGap t.inFlow t.rest t.line t.column t.keyAllowed false
  { t with rest, line, column, keyAllowed }

/-- The text is past the place up to which the candidate can become a key. -/
def isStale (t : Tokenizer) (candidate : Candidate) : Bool :=
  candidate.line < t.line || candidate.column + 1024 < t.column

def forgetKey? (t : Tokenizer) : Option Tokenizer :=
  if t.candidate.any (·.required) then none else some { t with candidate := none }

/-- A stale candidate is given up. Those of the enclosing levels are looked at
when their level is back. -/
def dropStale? (t : Tokenizer) : Option Tokenizer :=
  if t.candidate.any t.isStale then t.forgetKey? else some t

/-- Leave block collections until the margin is at most `limit`. -/
def unwind (limit : Nat) : Nat → List Nat → List Token → Nat × List Nat × List Token
  | margin, [], tokens => (margin, [], tokens)
  | margin, next :: outer, tokens =>
    if limit < margin then unwind limit next outer (.blockEnd :: tokens)
    else (margin, next :: outer, tokens)

def closeBlocks (limit : Nat) (t : Tokenizer) : Tokenizer :=
  if t.inFlow then t
  else
    let (margin, outer, tokens) := unwind limit t.margin t.outer t.tokens
    { t with margin, outer, tokens }

/-- Enter a block collection at a column, unless the innermost one is there
already; its first token goes after the first `before` tokens. -/
def openBlock (column before : Nat) (start : Token) (t : Tokenizer) : Tokenizer :=
  if t.inFlow || column < t.margin then t
  else
    insertToken before start { t with margin := column + 1, outer := t.margin :: t.outer }

def candidateHere (t : Tokenizer) : Candidate where
  before := t.tokens.length
  line := t.line
  column := t.column
  required := !t.inFlow && t.margin = t.column + 1

def noteKey? (t : Tokenizer) : Option Tokenizer :=
  if t.keyAllowed then t.forgetKey?.map fun t => { t with candidate := some t.candidateHere }
  else some t

def documentMarker? (token : Token) (t : Tokenizer) : Option Tokenizer :=
  (t.closeBlocks 0).forgetKey?.map fun t =>
    { t with keyAllowed := false } |>.emit token |>.advance 3

def openFlow? (token : Token) (t : Tokenizer) : Option Tokenizer :=
  t.noteKey?.map fun t =>
    { t with candidate := none, enclosing := t.candidate :: t.enclosing, keyAllowed := true }
      |>.emit token |>.advance 1

def closeFlow? (token : Token) (t : Tokenizer) : Option Tokenizer :=
  t.forgetKey?.map fun t =>
    { t with
      candidate := t.enclosing.head?.join
      enclosing := t.enclosing.tail
      keyAllowed := false } |>.emit token |>.advance 1

def flowEntry? (t : Tokenizer) : Option Tokenizer :=
  t.forgetKey?.map fun t => { t with keyAllowed := true } |>.emit .flowEntry |>.advance 1

/-- In a block collection an entry or a key starts where a key may start. -/
def startBlock? (start : Token) (t : Tokenizer) : Option Tokenizer :=
  if t.inFlow then some t
  else if t.keyAllowed then some (t.openBlock t.column t.tokens.length start)
  else none

def blockEntry? (t : Tokenizer) : Option Tokenizer := do
  let t ← (← t.startBlock? .blockSequenceStart).forgetKey?
  return { t with keyAllowed := true } |>.emit .blockEntry |>.advance 1

def explicitKey? (t : Tokenizer) : Option Tokenizer := do
  let t ← (← t.startBlock? .blockMappingStart).forgetKey?
  return { t with keyAllowed := !t.inFlow } |>.emit .key |>.advance 1

/-- A colon makes the candidate a key, and the first key of a block mapping also
starts that mapping. -/
def value? (t : Tokenizer) : Option Tokenizer :=
  match t.candidate with
  | some candidate =>
    some ({ t with candidate := none, keyAllowed := false }
      |>.insertToken candidate.before .key
      |>.openBlock candidate.column candidate.before .blockMappingStart
      |>.emit .value |>.advance 1)
  | none =>
    (t.startBlock? .blockMappingStart).map fun t =>
      { t with keyAllowed := !t.inFlow } |>.emit .value |>.advance 1

def isNameCharacter (c : Char) : Bool := c.isAlphanum || c = '_' || c = '-'

/-- What may follow the name of an anchor. -/
def endsName : List Char → Bool
  | [] => true
  | c :: cs => endsWord (c :: cs) || c ∈ ['?', ':', ',', ']', '\x7d', '%', '@', '\x60']

/-- An anchor or a reference: an indicator and a name. -/
def name? (token : String → Token) (t : Tokenizer) : Option Tokenizer := do
  let t ← t.noteKey?
  let name := t.rest.tail.takeWhile isNameCharacter
  if name ≠ [] && endsName (t.rest.tail.dropWhile isNameCharacter) then
    return { t with keyAllowed := false } |>.emit (token (.ofList name)) |>.advance (name.length + 1)
  else none

/-- Go on after a scalar. Where it ended with a line, a key may start. -/
def afterScalar (style : Style) (scanned : Scanned) (keyAllowed : Bool) (t : Tokenizer) :
    Tokenizer :=
  { t with rest := scanned.rest, line := scanned.line, column := scanned.column, keyAllowed }
    |>.emit (.scalar style (.ofList scanned.text))

def plain? (t : Tokenizer) : Option Tokenizer := do
  let t ← t.noteKey?
  let scanned ← readPlain t.inFlow t.margin t.rest t.line t.column {} []
  return t.afterScalar .plain scanned scanned.broken

def doubleQuoted? (t : Tokenizer) : Option Tokenizer := do
  let t ← t.noteKey?
  let scanned ← readDoubleQuoted t.rest.tail t.line (t.column + 1) {} []
  return t.afterScalar .doubleQuoted scanned false

def singleQuoted? (t : Tokenizer) : Option Tokenizer := do
  let t ← t.noteKey?
  let scanned ← readSingleQuoted t.rest.tail t.line (t.column + 1) {} []
  return t.afterScalar .singleQuoted scanned false

def block? (style : Style) (t : Tokenizer) : Option Tokenizer := do
  let t ← t.forgetKey?
  let scanned ← readBlock (style = .folded) t.margin t.rest.tail t.line
  return t.afterScalar style scanned true

/-- Whether a plain scalar starts with the character `c` before `cs`. -/
def startsPlain (inFlow : Bool) (c : Char) (cs : List Char) : Bool :=
  if c = '-' then !endsWord cs
  else if c = '?' || c = ':' then !inFlow && !endsWord cs
  else !isBlank c && !isBreak c && !isFlowIndicator c &&
    c ∉ ['#', '&', '*', '!', '|', '>', '\x27', '"', '%', '@', '\x60']

/-- The token that starts with the next character. -/
def next? (t : Tokenizer) : Option Tokenizer :=
  match t.rest with
  | [] => none
  | c :: cs =>
    if t.column = 0 && c = '%' then none
    else if t.column = 0 && isMarker '-' t.rest then t.documentMarker? .documentStart
    else if t.column = 0 && isMarker '.' t.rest then t.documentMarker? .documentEnd
    else if c = '[' then t.openFlow? .flowSequenceStart
    else if c = '\x7b' then t.openFlow? .flowMappingStart
    else if c = ']' then t.closeFlow? .flowSequenceEnd
    else if c = '\x7d' then t.closeFlow? .flowMappingEnd
    else if c = ',' then t.flowEntry?
    else if c = '-' && endsWord cs then t.blockEntry?
    else if c = '?' && (t.inFlow || endsWord cs) then t.explicitKey?
    else if c = ':' && (t.inFlow || endsWord cs) then t.value?
    else if c = '*' then t.name? .reference
    else if c = '&' then t.name? .anchor
    else if c = '|' && !t.inFlow then t.block? .literal
    else if c = '>' && !t.inFlow then t.block? .folded
    else if c = '\x27' then t.singleQuoted?
    else if c = '"' then t.doubleQuoted?
    else if startsPlain t.inFlow c cs then t.plain?
    else none

/-- All tokens from here on. Each step passes over a character at least. -/
def tokens? : Nat → Tokenizer → Option (List Token)
  | 0, _ => none
  | fuel + 1, t =>
    match t.toNextToken.dropStale? with
    | none => none
    | some t =>
      if t.rest = [] then (t.closeBlocks 0).forgetKey?.map fun t => t.tokens.reverse
      else
        match (t.closeBlocks (t.column + 1)).next? with
        | none => none
        | some t => tokens? fuel t

end Tokenizer

/-- The tokens of a text, all of whose characters have to be allowed. -/
def tokens? (text : List Char) : Option (List Token) :=
  if text.all isAllowed then Tokenizer.tokens? (text.length + 1) { rest := unifyBreaks text }
  else none

end PolicyAcl.Yaml
