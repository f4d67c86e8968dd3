import PolicyAcl.Digits
import PolicyAcl.Yaml.Text

/-! Scalars of a YAML text: plain, quoted and block ones. Each reader follows
the text character by character with the line and the column it is at. -/
namespace PolicyAcl.Yaml

inductive Style where
  | plain
  | singleQuoted
  | doubleQuoted
  | literal
  | folded
deriving DecidableEq, Repr

/-- A scalar's text, what follows it, and whether a line ended just before that. -/
structure Scanned where
  text : List Char
  rest : List Char
  line : Nat
  column : Nat
  broken : Bool := false

/-- Blanks and line breaks between two words of a scalar. Blanks count only as
long as no line has ended; breaks are kept with the latest first. -/
structure Gap where
  blanks : List Char := []
  broken : Bool := false
  first : Option Char := none
  more : List Char := []

namespace Gap

def addBlank (gap : Gap) (c : Char) : Gap :=
  if gap.broken then gap else { gap with blanks := c :: gap.blanks }

def addBreak (gap : Gap) (c : Char) : Gap :=
  if gap.broken then { gap with more := c :: gap.more }
  else { broken := true, first := some c }

/-- A line end that was escaped, and stands for nothing itself. -/
def escaped : Gap := { broken := true }

/-- A single line feed is folded into a space; of several, the first is dropped. -/
def text (gap : Gap) : List Char :=
  if gap.broken then
    match gap.first with
    | none => gap.more.reverse
    | some c =>
      if c = '\n' then (if gap.more = [] then [' '] else gap.more.reverse)
      else c :: gap.more.reverse
  else gap.blanks.reverse

def isEmpty (gap : Gap) : Bool := !gap.broken && gap.blanks.isEmpty

end Gap

/-- In a flow collection these end a plain scalar. -/
def isFlowIndicator (c : Char) : Bool :=
  c = ',' || c = '[' || c = ']' || c = '\x7b' || c = '\x7d'

/-- The rest of a plain scalar. The text is gathered with the latest character
first. Outside flow collections a continuation line starts at the column
`margin` or later, and a tab never stands in for such an indentation. -/
def readPlain (inFlow : Bool) (margin : Nat) :
    List Char → Nat → Nat → Gap → List Char → Option Scanned
  | [], line, column, gap, text => some ⟨text.reverse, [], line, column, gap.broken⟩
  | c :: cs, line, column, gap, text =>
    if isBlank c then
      if gap.broken && column < margin && c = '\t' then none
      else readPlain inFlow margin cs line (column + 1) (gap.addBlank c) text
    else if isBreak c then readPlain inFlow margin cs (line + 1) 0 (gap.addBreak c) text
    else if !gap.isEmpty && (c = '#' || column = 0 && isDocumentMarker (c :: cs) ||
        !inFlow && column < margin) then
      some ⟨text.reverse, c :: cs, line, column, gap.broken⟩
    else if inFlow && c = ':' && cs.head?.any fun next => isFlowIndicator next || next = '?' then
      none
    else if c = ':' && endsWord cs || inFlow && isFlowIndicator c then
      some ⟨text.reverse, c :: cs, line, column, gap.broken⟩
    else readPlain inFlow margin cs line (column + 1) {} (c :: (gap.text.reverse ++ text))

def escape? : Char → Option Char
  | '0' => some '\x00'
  | 'a' => some '\x07'
  | 'b' => some '\x08'
  | 't' => some '\t'
  | '\t' => some '\t'
  | 'n' => some '\n'
  | 'v' => some '\x0b'
  | 'f' => some '\x0c'
  | 'r' => some '\r'
  | 'e' => some '\x1b'
  | ' ' => some ' '
  | '"' => some '"'
  | '/' => some '/'
  | '\\' => some '\\'
  | 'N' => some '\x85'
  | '_' => some '\xa0'
  | 'L' => some '\u2028'
  | 'P' => some '\u2029'
  | _ => none

/-- The character with a code; surrogates and codes beyond the last have none. -/
def characterOf? (code : Nat) : Option Char :=
  if h : code.isValidChar then some (Char.ofNatAux code h) else none

/-- The character that hexadecimal digits name. -/
def escapedCode? (digits : List Char) : Option Char :=
  (digitsValue? 16 0 digits).bind characterOf?

/-- The rest of a scalar in double quotes. -/
def readDoubleQuoted : List Char → Nat → Nat → Gap → List Char → Option Scanned
  | [], _, _, _, _ => none
  | c :: cs, line, column, gap, text =>
    if isBlank c then readDoubleQuoted cs line (column + 1) (gap.addBlank c) text
    else if isBreak c then readDoubleQuoted cs (line + 1) 0 (gap.addBreak c) text
    else if column = 0 && isDocumentMarker (c :: cs) then none
    else
      let text := gap.text.reverse ++ text
      if c = '"' then some { text := text.reverse, rest := cs, line, column := column + 1 }
      else if c = '\\' then
        match cs with
        | [] => none
        | e :: cs =>
          if isBreak e then readDoubleQuoted cs (line + 1) 0 .escaped text
          else if e = 'x' then
            match cs with
            | a :: b :: cs =>
              match escapedCode? [a, b] with
              | some c => readDoubleQuoted cs line (column + 4) {} (c :: text)
              | none => none
            | _ => none
          else if e = 'u' then
            match cs with
            | a :: b :: c :: d :: cs =>
              match escapedCode? [a, b, c, d] with
              | some c => readDoubleQuoted cs line (column + 6) {} (c :: text)
              | none => none
            | _ => none
          else if e = 'U' then
            match cs with
            | a :: b :: c :: d :: a' :: b' :: c' :: d' :: cs =>
              match escapedCode? [a, b, c, d, a', b', c', d'] with
              | some c => readDoubleQuoted cs line (column + 10) {} (c :: text)
              | none => none
            | _ => none
          else
            match escape? e with
            | some c => readDoubleQuoted cs line (column + 2) {} (c :: text)
            | none => none
      else readDoubleQuoted cs line (column + 1) {} (c :: text)

/-- The rest of a scalar in single quotes, in which a quote is written twice. -/
def readSingleQuoted : List Char → Nat → Nat → Gap → List Char → Option Scanned
  | [], _, _, _, _ => none
  | c :: cs, line, column, gap, text =>
    if isBlank c then readSingleQuoted cs line (column + 1) (gap.addBlank c) text
    else if isBreak c then readSingleQuoted cs (line + 1) 0 (gap.addBreak c) text
    else if column = 0 && isDocumentMarker (c :: cs) then none
    else
      let text := gap.text.reverse ++ text
      if c = '\x27' then
        match cs with
        | d :: cs =>
          if d = '\x27' then readSingleQuoted cs line (column + 2) {} (c :: text)
          else some { text := text.reverse, rest := d :: cs, line, column := column + 1 }
        | [] => some { text := text.reverse, rest := [], line, column := column + 1 }
      else readSingleQuoted cs line (column + 1) {} (c :: text)

/-- What becomes of the line breaks at the end of a block scalar. -/
inductive Chomping where
  | strip
  | clip
  | keep
deriving DecidableEq, Repr

def chomping? (c : Char) : Option Chomping :=
  if c = '+' then some .keep else if c = '-' then some .strip else none

/-- An indentation indicator is a digit other than zero. -/
def increment? (c : Char) : Option Nat := (digitValue? 10 c).filter (· ≠ 0)

/-- The indicators in front of a block scalar, in either order, with zero for an
indentation that is not given, and how many characters they are. -/
def readIndicators (text : List Char) : Chomping × Nat × List Char :=
  match text with
  | [] => (.clip, 0, [])
  | c :: cs =>
    match chomping? c with
    | some chomping =>
      match cs.head?.bind increment? with
      | some increment => (chomping, increment, cs.tail)
      | none => (chomping, 0, cs)
    | none =>
      match increment? c with
      | some increment =>
        match cs.head?.bind chomping? with
        | some chomping => (chomping, increment, cs.tail)
        | none => (.clip, increment, cs)
      | none => (.clip, 0, c :: cs)

/-- What follows the header line of a block scalar, which ends with blanks and a
comment at most. -/
def afterHeader? (comment : Bool) : List Char → Option (List Char)
  | [] => some []
  | c :: cs =>
    if isBreak c then some cs
    else if comment || c = '#' then afterHeader? true cs
    else if isBlank c then afterHeader? false cs
    else none

/-- The widest indentation up to the first line that is not empty. No tab may
stand among its spaces. -/
def widestIndent? : List Char → Nat → Nat → Option Nat
  | [], column, widest => some (max column widest)
  | c :: cs, column, widest =>
    if c = ' ' then widestIndent? cs (column + 1) widest
    else if c = '\t' then none
    else if isBreak c then widestIndent? cs 0 (max column widest)
    else some (max column widest)

/-- The lines of a block scalar: inside a line, or in front of one. The last
line break and the empty lines after it are held back until the next line. -/
structure Lines where
  inLine : Bool := false
  text : List Char := []
  lineBreak : List Char := []
  emptyLines : List Char := []
  afterBlank : Bool := false

namespace Lines

/-- Start a line with the character `c`: the breaks held back are written, or
folded if neither line starts with a blank. -/
def start (folded : Bool) (lines : Lines) (c : Char) : Lines :=
  let fold := folded && lines.lineBreak = ['\n'] && !lines.afterBlank && !isBlank c
  let breaks :=
    if fold then (if lines.emptyLines = [] then [' '] else []) else lines.lineBreak
  { inLine := true
    text := c :: (lines.emptyLines ++ breaks ++ lines.text)
    lineBreak := []
    emptyLines := []
    afterBlank := isBlank c }

def finish (chomping : Chomping) (lines : Lines) : List Char :=
  match chomping with
  | .strip => lines.text.reverse
  | .clip => (lines.lineBreak ++ lines.text).reverse
  | .keep => (lines.emptyLines ++ lines.lineBreak ++ lines.text).reverse

end Lines

/-- The content of a block scalar whose lines are indented by `indent`. A line
that is indented less ends it; it must not be indented by a tab. -/
def readLines (folded : Bool) (chomping : Chomping) (indent : Nat) :
    List Char → Nat → Nat → Lines → Option Scanned
  | [], line, column, lines => some { text := lines.finish chomping, rest := [], line, column }
  | c :: cs, line, column, lines =>
    if lines.inLine then
      if isBreak c then
        readLines folded chomping indent cs (line + 1) 0
          { lines with inLine := false, lineBreak := [c] }
      else
        readLines folded chomping indent cs line (column + 1) { lines with text := c :: lines.text }
    else if column < indent && c = ' ' then
      readLines folded chomping indent cs line (column + 1) lines
    else if column < indent && c = '\t' then none
    else if isBreak c then
      readLines folded chomping indent cs (line + 1) 0
        { lines with emptyLines := c :: lines.emptyLines }
    else if column = indent then
      readLines folded chomping indent cs line (column + 1) (lines.start folded c)
    else some { text := lines.finish chomping, rest := c :: cs, line, column }

/-- A block scalar after its first indicator, in a collection whose content is
at the column `margin` or later. -/
def readBlock (folded : Bool) (margin : Nat) (text : List Char) (line : Nat) : Option Scanned := do
  let (chomping, increment, header) := readIndicators text
  let content ← afterHeader? false header
  let indent ←
    if increment = 0 then (widestIndent? content 0 0).map fun widest => max widest (max margin 1)
    else some (margin - 1 + increment)
  readLines folded chomping indent content (line + 1) 0 {}

end PolicyAcl.Yaml
