import PolicyAcl.Address.Basic
import PolicyAcl.Digits

/-! The text of an address. Writing gives one canonical spelling; reading takes
every accepted spelling. An IPv6 text is cut at its first double colon, and each
side is a list of groups between colons, the last of which may be a dotted IPv4
address standing for two groups. -/
namespace PolicyAcl

namespace Octets

/-- An octet is one to three decimal digits, at most 255, with no zero in front. -/
def readOctet? (text : List Char) : Option UInt8 :=
  if text.length = 0 ∨ 3 < text.length then none
  else if text.head? = some '0' ∧ text.length ≠ 1 then none
  else match digitsValue? 10 0 text with
    | some n => if n < 256 then some (UInt8.ofNat n) else none
    | none => none

def readAll? : List (List Char) → Option (List UInt8)
  | [] => some []
  | part :: parts => do return (← readOctet? part) :: (← readAll? parts)

def read? (text : List Char) : Option Octets :=
  (readAll? (text.splitOn '.')).bind ofList?

def write (o : Octets) : List Char :=
  ['.'].intercalate (o.toList.map fun octet => Nat.toDigits 10 octet.toNat)

/-- The two groups that a dotted address stands for at the end of an IPv6 text. -/
def groups (o : Octets) : List UInt16 :=
  [UInt16.ofNat (o.a.toNat * 256 + o.b.toNat), UInt16.ofNat (o.c.toNat * 256 + o.d.toNat)]

end Octets

namespace Groups

/-- A group is one to four hexadecimal digits. -/
def readGroup? (text : List Char) : Option UInt16 :=
  if text.length = 0 ∨ 4 < text.length then none
  else (digitsValue? 16 0 text).map UInt16.ofNat

/-- The groups of colon-separated parts. With `dotted`, the last part may be a
dotted IPv4 address. -/
def readParts? (dotted : Bool) : List (List Char) → Option (List UInt16)
  | [] => some []
  | [last] =>
    if dotted ∧ '.' ∈ last then (Octets.read? last).map Octets.groups
    else (readGroup? last).map ([·])
  | part :: parts => do return (← readGroup? part) :: (← readParts? dotted parts)

/-- The groups on one side of a double colon; nothing there is no group. -/
def readSide? (dotted : Bool) (text : List Char) : Option (List UInt16) :=
  if text = [] then some [] else readParts? dotted (text.splitOn ':')

/-- The text before and after the first double colon. -/
def cutAtGap : List Char → Option (List Char × List Char)
  | [] => none
  | c :: cs =>
    if c = ':' ∧ cs.head? = some ':' then some ([], cs.tail)
    else (cutAtGap cs).map fun (before, after) => (c :: before, after)

/-- A double colon stands for at least one zero group. A dotted end may only
close the whole text. -/
def read? (text : List Char) : Option Groups :=
  match cutAtGap text with
  | none => (readSide? true text).bind ofList?
  | some (before, after) => do
    let front ← readSide? false before
    let back ← readSide? true after
    if front.length + back.length < 8 then
      ofList? (front ++ List.replicate (8 - front.length - back.length) 0 ++ back)
    else none

/-- Where the longest run of zero groups starts and how long it is; the first
one if several are longest. -/
def zeroRun : List UInt16 → Nat × Nat
  | [] => (0, 0)
  | group :: rest =>
    let here := ((group :: rest).takeWhile (· = 0)).length
    let (start, length) := zeroRun rest
    if length ≤ here then (0, here) else (start + 1, length)

def writeParts (groups : List UInt16) : List Char :=
  [':'].intercalate (groups.map fun group => Nat.toDigits 16 group.toNat)

def mapped? (g : Groups) : Option Octets :=
  if g.toList.take 6 = [0, 0, 0, 0, 0, 0xffff] then
    some ⟨UInt8.ofNat (g.g.toNat / 256), UInt8.ofNat (g.g.toNat % 256),
      UInt8.ofNat (g.h.toNat / 256), UInt8.ofNat (g.h.toNat % 256)⟩
  else none

/-- IPv4-mapped addresses end in a dotted address. In others the first longest
run of two or more zero groups is written as a double colon. -/
def write (g : Groups) : List Char :=
  match g.mapped? with
  | some octets => "::ffff:".toList ++ octets.write
  | none =>
    let (start, length) := zeroRun g.toList
    if 2 ≤ length then
      writeParts (g.toList.take start) ++ [':', ':'] ++ writeParts (g.toList.drop (start + length))
    else writeParts g.toList

end Groups

namespace Address

def write : Address → List Char
  | .v4 o => o.write
  | .v6 g => g.write

def read? (text : List Char) : Option Address :=
  match Octets.read? text with
  | some o => some (.v4 o)
  | none => (Groups.read? text).map .v6

def text (address : Address) : String := String.ofList address.write

/-- The address that a text spells, if any: no zone, prefix length or blank is
accepted. -/
def ofText? (text : String) : Option Address := read? text.toList

def syntaxMessage : String := "invalid IP address syntax"

end Address

end PolicyAcl
