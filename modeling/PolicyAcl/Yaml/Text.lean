/-! Characters and lines of a YAML text. -/
namespace PolicyAcl.Yaml

/-- The characters a text may hold: tab, the line breaks, and what can be
printed. -/
def isAllowed (c : Char) : Bool :=
  let n := c.toNat
  n = 0x09 || n = 0x0a || n = 0x0d || (0x20 ≤ n && n ≤ 0x7e) || n = 0x85 ||
    (0xa0 ≤ n && n ≤ 0xd7ff) || (0xe000 ≤ n && n ≤ 0xfffd) || 0x10000 ≤ n

/-- A carriage return, with or without a line feed, and a next-line character
end a line like a line feed. -/
def unifyBreaks : List Char → List Char
  | [] => []
  | '\r' :: '\n' :: cs => '\n' :: unifyBreaks cs
  | c :: cs => (if c = '\r' ∨ c = '\x85' then '\n' else c) :: unifyBreaks cs

/-- A byte-order mark may stand in front of any line, not only the first one. -/
def byteOrderMark : Char := '\ufeff'

def isBlank (c : Char) : Bool := c = ' ' || c = '\t'

/-- After `unifyBreaks`, a line ends with a line feed or with one of the two
separators, which are kept as they are. -/
def isBreak (c : Char) : Bool := c = '\n' || c = '\u2028' || c = '\u2029'

/-- Nothing, a blank or a line break comes next. -/
def endsWord : List Char → Bool
  | [] => true
  | c :: _ => isBlank c || isBreak c

/-- Three times the character `c`, and then the end of a word. At the start of a
line, three hyphens start a document and three dots end one. -/
def isMarker (c : Char) : List Char → Bool
  | x :: y :: z :: rest => x = c && y = c && z = c && endsWord rest
  | _ => false

def isDocumentMarker (text : List Char) : Bool := isMarker '-' text || isMarker '.' text

end PolicyAcl.Yaml
