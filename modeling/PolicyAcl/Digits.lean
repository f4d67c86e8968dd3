/-! Digits and the numbers they write. -/
namespace PolicyAcl

/-- The value of a digit in a base up to sixteen, letters of either case. -/
def digitValue? (base : Nat) (c : Char) : Option Nat :=
  let n := c.toNat
  let value :=
    if '0'.toNat ≤ n ∧ n ≤ '9'.toNat then n - '0'.toNat
    else if 'a'.toNat ≤ n ∧ n ≤ 'f'.toNat then n - 'a'.toNat + 10
    else if 'A'.toNat ≤ n ∧ n ≤ 'F'.toNat then n - 'A'.toNat + 10
    else base
  if value < base then some value else none

/-- The number written by a run of digits after the number `n`, most significant
first. -/
def digitsValue? (base : Nat) (n : Nat) : List Char → Option Nat
  | [] => some n
  | c :: cs => (digitValue? base c).bind fun digit => digitsValue? base (n * base + digit) cs

end PolicyAcl
