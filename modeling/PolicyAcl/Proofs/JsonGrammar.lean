import Mathlib.Data.Nat.Notation
import PolicyAcl.Json.Reader

/-! The texts of JSON values, told without reading them. What may stand between two tokens is
left open: blanks in a document as it is written by hand, nothing in a compact one. -/
namespace PolicyAcl.Json

/-- Nothing but blanks. -/
def Blanks (text : List Char) : Prop := ∀ c ∈ text, c ∈ [' ', '\t', '\n', '\r']

/-- Nothing at all. -/
def Compact (text : List Char) : Prop := text = []

def digitChar (digit : Fin 10) : Char := Nat.digitChar digit.val

/-- A whole number is zero, or starts with another digit. -/
inductive SpellsWhole : Nat → List Char → Prop
  | zero : SpellsWhole 0 ['0']
  | digits {first : Fin 10} {more : List (Fin 10)} : first ≠ 0 →
      SpellsWhole (decimalValue (first :: more)) ((first :: more).map digitChar)

inductive SpellsFraction : List (Fin 10) → List Char → Prop
  | absent : SpellsFraction [] []
  | digits {digits : List (Fin 10)} : digits ≠ [] →
      SpellsFraction digits ('.' :: digits.map digitChar)

/-- The sign of an exponent, and whether it is a minus. -/
inductive SpellsSign : Bool → List Char → Prop
  | absent : SpellsSign false []
  | plus : SpellsSign false ['+']
  | minus : SpellsSign true ['-']

inductive SpellsExponent : Option Int → List Char → Prop
  | absent : SpellsExponent none []
  | digits {mark : Char} {negative : Bool} {sign : List Char} {digits : List (Fin 10)} :
      mark ∈ ['e', 'E'] → SpellsSign negative sign → digits ≠ [] →
      SpellsExponent (some (if negative then -decimalValue digits else decimalValue digits))
        (mark :: (sign ++ digits.map digitChar))

/-- A sign, a whole number, a fraction and an exponent, of which the second is never left
out. -/
inductive SpellsNumber : Number → List Char → Prop
  | parts {negative : Bool} {whole : Nat} {fraction : List (Fin 10)} {exponent : Option Int}
      {wholes fractions exponents : List Char} :
      SpellsWhole whole wholes → SpellsFraction fraction fractions →
      SpellsExponent exponent exponents →
      SpellsNumber { negative, whole, fraction, exponent }
        ((if negative then ['-'] else []) ++ (wholes ++ (fractions ++ exponents)))

/-- The letters that follow a backslash, with what they stand for. -/
def escapes : List (Char × Char) :=
  [('"', '"'), ('\\', '\\'), ('/', '/'), ('b', '\x08'), ('f', '\x0c'), ('n', '\n'), ('r', '\r'),
    ('t', '\t')]

/-- A hexadecimal digit, with its letter in either case. -/
def IsHexDigit (value : Nat) (c : Char) : Prop :=
  value < 16 ∧ (c = Nat.digitChar value ∨ c = (Nat.digitChar value).toUpper)

instance (value : Nat) (c : Char) : Decidable (IsHexDigit value c) :=
  inferInstanceAs (Decidable (_ ∧ _))

/-- Four hexadecimal digits. -/
inductive SpellsUnit : Nat → List Char → Prop
  | digits {a b c d : Char} {k l m n : Nat} :
      IsHexDigit k a → IsHexDigit l b → IsHexDigit m c → IsHexDigit n d →
      SpellsUnit (((k * 16 + l) * 16 + m) * 16 + n) [a, b, c, d]

def HighSurrogate (unit : Nat) : Prop := 0xd800 ≤ unit ∧ unit < 0xdc00

def LowSurrogate (unit : Nat) : Prop := 0xdc00 ≤ unit ∧ unit < 0xe000

/-- What stands between the quotes of a string: characters, escaped ones, and codes with
surrogates in pairs only. -/
inductive SpellsString : List Char → List Char → Prop
  | done : SpellsString [] []
  | raw {c : Char} {chars body : List Char} : c ≠ '"' → c ≠ '\\' → 0x20 ≤ c.toNat →
      SpellsString chars body → SpellsString (c :: chars) (c :: body)
  | escaped {letter c : Char} {chars body : List Char} : (letter, c) ∈ escapes →
      SpellsString chars body → SpellsString (c :: chars) ('\\' :: letter :: body)
  | unit {unit : Nat} {digits chars body : List Char} : SpellsUnit unit digits →
      ¬HighSurrogate unit → ¬LowSurrogate unit → SpellsString chars body →
      SpellsString (Char.ofNat unit :: chars) ('\\' :: 'u' :: (digits ++ body))
  | pair {high low : Nat} {highs lows chars body : List Char} : SpellsUnit high highs →
      HighSurrogate high → SpellsUnit low lows → LowSurrogate low → SpellsString chars body →
      SpellsString (Char.ofNat (0x10000 + (high - 0xd800) * 0x400 + (low - 0xdc00)) :: chars)
        ('\\' :: 'u' :: (highs ++ '\\' :: 'u' :: (lows ++ body)))

mutual

/-- The text of a value, with nothing before or after it. -/
inductive Spells (Gap : List Char → Prop) : Value → List Char → Prop
  | null : Spells Gap .null ['n', 'u', 'l', 'l']
  | boolTrue : Spells Gap (.bool true) ['t', 'r', 'u', 'e']
  | boolFalse : Spells Gap (.bool false) ['f', 'a', 'l', 's', 'e']
  | number {number : Number} {text : List Char} : SpellsNumber number text →
      Spells Gap (.number number) text
  | string {chars body : List Char} : SpellsString chars body →
      Spells Gap (.string (.ofList chars)) ('"' :: (body ++ ['"']))
  | noItems {gap : List Char} : Gap gap → Spells Gap (.array []) ('[' :: (gap ++ [']']))
  | array {items : List Value} {text : List Char} : SpellsItems Gap items text →
      Spells Gap (.array items) ('[' :: (text ++ [']']))
  | noFields {gap : List Char} : Gap gap → Spells Gap (.object []) ('\x7b' :: (gap ++ ['\x7d']))
  | object {fields : List (String × Value)} {text : List Char} : SpellsFields Gap fields text →
      Spells Gap (.object fields) ('\x7b' :: (text ++ ['\x7d']))

/-- A value with what may stand before and after it. -/
inductive SpellsItem (Gap : List Char → Prop) : Value → List Char → Prop
  | between {value : Value} {before text after : List Char} : Gap before → Spells Gap value text →
      Gap after → SpellsItem Gap value (before ++ (text ++ after))

/-- One or more values between commas. -/
inductive SpellsItems (Gap : List Char → Prop) : List Value → List Char → Prop
  | last {value : Value} {text : List Char} : SpellsItem Gap value text →
      SpellsItems Gap [value] text
  | more {value : Value} {items : List Value} {text rest : List Char} :
      SpellsItem Gap value text → SpellsItems Gap items rest →
      SpellsItems Gap (value :: items) (text ++ ',' :: rest)

/-- A name, a colon and a value. -/
inductive SpellsField (Gap : List Char → Prop) : String × Value → List Char → Prop
  | named {name body before after text : List Char} {value : Value} : Gap before →
      SpellsString name body → Gap after → SpellsItem Gap value text →
      SpellsField Gap (.ofList name, value)
        (before ++ '"' :: (body ++ '"' :: (after ++ ':' :: text)))

/-- One or more fields between commas. -/
inductive SpellsFields (Gap : List Char → Prop) : List (String × Value) → List Char → Prop
  | last {field : String × Value} {text : List Char} : SpellsField Gap field text →
      SpellsFields Gap [field] text
  | more {field : String × Value} {fields : List (String × Value)} {text rest : List Char} :
      SpellsField Gap field text → SpellsFields Gap fields rest →
      SpellsFields Gap (field :: fields) (text ++ ',' :: rest)

end

/-- A strict document: one value between blanks. -/
def Document (value : Value) (text : List Char) : Prop :=
  SpellsItem Blanks value text

/-- Values that differ at most in the order of the fields of their objects, at any depth. -/
inductive Value.Reordered : Value → Value → Prop
  | refl (value : Value) : Reordered value value
  | trans {value middle other : Value} : Reordered value middle → Reordered middle other →
      Reordered value other
  | fields {fields fields' : List (String × Value)} : fields.Perm fields' →
      Reordered (.object fields) (.object fields')
  | field {before after : List (String × Value)} {name : String} {value value' : Value} :
      Reordered value value' →
      Reordered (.object (before ++ (name, value) :: after)) (.object (before ++ (name, value') :: after))
  | item {before after : List Value} {value value' : Value} : Reordered value value' →
      Reordered (.array (before ++ value :: after)) (.array (before ++ value' :: after))

end PolicyAcl.Json
