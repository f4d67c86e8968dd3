import PolicyAcl.Digits
import PolicyAcl.Json.Basic

/-! Strict reading of JSON. Each reader takes a text and gives what it read with
the rest of the text, or nothing if the text does not start that way. Blanks are
skipped before a token, never after it. -/
namespace PolicyAcl.Json

def digit? (c : Char) : Option (Fin 10) :=
  if h : '0'.toNat ≤ c.toNat ∧ c.toNat ≤ '9'.toNat then
    some ⟨c.toNat - '0'.toNat, by
      have lower : '0'.toNat = 48 := rfl
      have upper : '9'.toNat = 57 := rfl
      omega⟩
  else none

def readDigits : List Char → List (Fin 10) × List Char
  | [] => ([], [])
  | c :: cs =>
    match digit? c with
    | some digit => ((digit :: (readDigits cs).1), (readDigits cs).2)
    | none => ([], c :: cs)

def decimalValue (digits : List (Fin 10)) : Nat := digits.foldl (fun n digit => n * 10 + digit.val) 0

/-- A whole number has no zero in front of other digits. -/
def readWhole? (text : List Char) : Option (Nat × List Char) :=
  match text with
  | '0' :: rest => some (0, rest)
  | _ =>
    match readDigits text with
    | ([], _) => none
    | (digits, rest) => some (decimalValue digits, rest)

/-- A point is followed by at least one digit. -/
def readFraction? (text : List Char) : Option (List (Fin 10) × List Char) :=
  match text with
  | '.' :: rest =>
    match readDigits rest with
    | ([], _) => none
    | (digits, rest) => some (digits, rest)
  | _ => some ([], text)

/-- The sign of an exponent, true for a minus. -/
def readSign : List Char → Bool × List Char
  | '-' :: rest => (true, rest)
  | '+' :: rest => (false, rest)
  | text => (false, text)

/-- An exponent has at least one digit. -/
def readExponent? (text : List Char) : Option (Option Int × List Char) :=
  match text with
  | c :: rest =>
    if c = 'e' ∨ c = 'E' then
      let (negative, rest) := readSign rest
      match readDigits rest with
      | ([], _) => none
      | (digits, rest) =>
        let size : Int := decimalValue digits
        some (some (if negative then -size else size), rest)
    else some (none, text)
  | [] => some (none, [])

def readNumber? (text : List Char) : Option (Number × List Char) := do
  let (negative, text) := match text with
    | '-' :: rest => (true, rest)
    | _ => (false, text)
  let (whole, text) ← readWhole? text
  let (fraction, text) ← readFraction? text
  let (exponent, text) ← readExponent? text
  return ({ negative, whole, fraction, exponent }, text)

/-- What a letter stands for after a backslash. -/
def escape? : Char → Option Char
  | '"' => some '"'
  | '\\' => some '\\'
  | '/' => some '/'
  | 'b' => some '\x08'
  | 'f' => some '\x0c'
  | 'n' => some '\n'
  | 'r' => some '\r'
  | 't' => some '\t'
  | _ => none

def isHighSurrogate (unit : Nat) : Bool := 0xd800 ≤ unit && unit < 0xdc00

def isLowSurrogate (unit : Nat) : Bool := 0xdc00 ≤ unit && unit < 0xe000

/-- The rest of a string up to its closing quote. Control characters have to be
escaped, and a surrogate has to be one of a pair. -/
def readString? : List Char → Option (List Char × List Char)
  | [] => none
  | c :: cs =>
    if c = '"' then some ([], cs)
    else if c = '\\' then
      match cs with
      | [] => none
      | letter :: cs =>
        if letter = 'u' then
          match cs with
          | a :: b :: c :: d :: cs =>
            match digitsValue? 16 0 [a, b, c, d] with
            | none => none
            | some unit =>
              if isHighSurrogate unit then
                match cs with
                | '\\' :: 'u' :: a :: b :: c :: d :: cs =>
                  match digitsValue? 16 0 [a, b, c, d] with
                  | none => none
                  | some low =>
                    if isLowSurrogate low then
                      let code := 0x10000 + (unit - 0xd800) * 0x400 + (low - 0xdc00)
                      (readString? cs).map fun (text, rest) => (Char.ofNat code :: text, rest)
                    else none
                | _ => none
              else if isLowSurrogate unit then none
              else (readString? cs).map fun (text, rest) => (Char.ofNat unit :: text, rest)
          | _ => none
        else
          match escape? letter with
          | some c => (readString? cs).map fun (text, rest) => (c :: text, rest)
          | none => none
    else if c.toNat < 0x20 then none
    else (readString? cs).map fun (text, rest) => (c :: text, rest)

mutual

/-- One value, at a nesting that the fuel allows. -/
def readValue? : Nat → List Char → Option (Value × List Char)
  | 0, _ => none
  | fuel + 1, text =>
    match skipBlanks text with
    | 'n' :: 'u' :: 'l' :: 'l' :: rest => some (.null, rest)
    | 't' :: 'r' :: 'u' :: 'e' :: rest => some (.bool true, rest)
    | 'f' :: 'a' :: 'l' :: 's' :: 'e' :: rest => some (.bool false, rest)
    | '"' :: rest => (readString? rest).map fun (chars, rest) => (.string (.ofList chars), rest)
    | '[' :: rest =>
      match skipBlanks rest with
      | ']' :: rest => some (.array [], rest)
      | rest => (readItems? fuel rest).map fun (items, rest) => (.array items, rest)
    | '\x7b' :: rest =>
      match skipBlanks rest with
      | '\x7d' :: rest => some (.object [], rest)
      | rest => (readFields? fuel rest).map fun (fields, rest) => (.object fields, rest)
    | rest => (readNumber? rest).map fun (number, rest) => (.number number, rest)

/-- One or more values between commas, and the closing bracket. -/
def readItems? : Nat → List Char → Option (List Value × List Char)
  | 0, _ => none
  | fuel + 1, text =>
    match readValue? fuel text with
    | none => none
    | some (value, rest) =>
      match skipBlanks rest with
      | ',' :: rest => (readItems? fuel rest).map fun (items, rest) => (value :: items, rest)
      | ']' :: rest => some ([value], rest)
      | _ => none

/-- One or more fields between commas, and the closing brace. -/
def readFields? : Nat → List Char → Option (List (String × Value) × List Char)
  | 0, _ => none
  | fuel + 1, text =>
    match skipBlanks text with
    | '"' :: rest =>
      match readString? rest with
      | none => none
      | some (name, rest) =>
        match skipBlanks rest with
        | ':' :: rest =>
          match readValue? fuel rest with
          | none => none
          | some (value, rest) =>
            let field := (String.ofList name, value)
            match skipBlanks rest with
            | ',' :: rest =>
              (readFields? fuel rest).map fun (fields, rest) => (field :: fields, rest)
            | '\x7d' :: rest => some ([field], rest)
            | _ => none
        | _ => none
    | _ => none

end

/-- The value in front of a text and what follows it. A level of nesting takes
two units of fuel and at least one character. -/
def read? (text : List Char) : Option (Value × List Char) := readValue? (2 * text.length + 2) text

/-- The value of a text that is one document, with nothing but blanks around it. -/
def document? (text : List Char) : Option Value :=
  match read? text with
  | some (value, rest) => if skipBlanks rest = [] then some value else none
  | none => none

end PolicyAcl.Json
