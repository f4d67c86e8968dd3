/-! JSON values as they are written: fields keep their order and their repeats. -/
namespace PolicyAcl.Json

/-- A number by its parts; the digits of the fraction are most significant first. -/
structure Number where
  negative : Bool
  whole : Nat
  fraction : List (Fin 10) := []
  exponent : Option Int := none
deriving DecidableEq, Repr

inductive Value where
  | null
  | bool (value : Bool)
  | number (value : Number)
  | string (value : String)
  | array (items : List Value)
  | object (fields : List (String × Value))
deriving Repr

/-- The four characters that may stand between tokens. -/
def isBlank (c : Char) : Bool := c = ' ' || c = '\t' || c = '\n' || c = '\r'

def skipBlanks (text : List Char) : List Char := text.dropWhile isBlank

end PolicyAcl.Json
