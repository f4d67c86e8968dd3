/-! IP addresses and their order. An IPv4 address is four octets and an IPv6
address is eight 16-bit groups, so that the text of an address can be read and
written part by part. Addresses are ordered by a rank that puts every IPv4
address before every IPv6 address and is the numeric order inside a family. -/
namespace PolicyAcl

inductive Family where
  | v4
  | v6
deriving DecidableEq, Repr

/-- The octets of an IPv4 address, most significant first. -/
structure Octets where
  a : UInt8
  b : UInt8
  c : UInt8
  d : UInt8
deriving DecidableEq, Repr

/-- The 16-bit groups of an IPv6 address, most significant first. -/
structure Groups where
  a : UInt16
  b : UInt16
  c : UInt16
  d : UInt16
  e : UInt16
  f : UInt16
  g : UInt16
  h : UInt16
deriving DecidableEq, Repr

/-- An IPv4-mapped address is an IPv6 address, different from the one it maps. -/
inductive Address where
  | v4 (octets : Octets)
  | v6 (groups : Groups)
deriving DecidableEq, Repr

def Address.family : Address → Family
  | .v4 _ => .v4
  | .v6 _ => .v6

namespace Octets

def toList (o : Octets) : List UInt8 := [o.a, o.b, o.c, o.d]

def ofList? : List UInt8 → Option Octets
  | [a, b, c, d] => some ⟨a, b, c, d⟩
  | _ => none

/-- The numeric value, below 2 ^ 32. -/
def value (o : Octets) : Nat :=
  ((o.a.toNat * 256 + o.b.toNat) * 256 + o.c.toNat) * 256 + o.d.toNat

theorem value_lt (o : Octets) : o.value < 4294967296 := by
  have := o.a.toNat_lt; have := o.b.toNat_lt; have := o.c.toNat_lt; have := o.d.toNat_lt
  simp only [value]; omega

theorem value_inj {o p : Octets} (h : o.value = p.value) : o = p := by
  obtain ⟨a, b, c, d⟩ := o
  obtain ⟨a', b', c', d'⟩ := p
  have := a.toNat_lt; have := b.toNat_lt; have := c.toNat_lt; have := d.toNat_lt
  have := a'.toNat_lt; have := b'.toNat_lt; have := c'.toNat_lt; have := d'.toNat_lt
  simp only [value] at h
  simp only [mk.injEq, ← UInt8.toNat_inj]
  omega

end Octets

namespace Groups

def toList (g : Groups) : List UInt16 := [g.a, g.b, g.c, g.d, g.e, g.f, g.g, g.h]

def ofList? : List UInt16 → Option Groups
  | [a, b, c, d, e, f, g, h] => some ⟨a, b, c, d, e, f, g, h⟩
  | _ => none

/-- The numeric value, below 2 ^ 128. -/
def value (g : Groups) : Nat :=
  g.toList.foldl (fun n group => n * 65536 + group.toNat) 0

theorem value_inj {g k : Groups} (h : g.value = k.value) : g = k := by
  obtain ⟨a, b, c, d, e, f, g, m⟩ := g
  obtain ⟨a', b', c', d', e', f', g', m'⟩ := k
  have := a.toNat_lt; have := b.toNat_lt; have := c.toNat_lt; have := d.toNat_lt
  have := e.toNat_lt; have := f.toNat_lt; have := g.toNat_lt; have := m.toNat_lt
  have := a'.toNat_lt; have := b'.toNat_lt; have := c'.toNat_lt; have := d'.toNat_lt
  have := e'.toNat_lt; have := f'.toNat_lt; have := g'.toNat_lt; have := m'.toNat_lt
  simp only [value, toList, List.foldl_cons, List.foldl_nil] at h
  simp only [mk.injEq, ← UInt16.toNat_inj]
  omega

end Groups

namespace Address

def rank : Address → Nat
  | .v4 o => o.value
  | .v6 g => 4294967296 + g.value

theorem rank_inj {x y : Address} (h : x.rank = y.rank) : x = y := by
  cases x with
  | v4 o =>
    cases y with
    | v4 p => rw [Octets.value_inj (o := o) (p := p) h]
    | v6 g => have := o.value_lt; simp only [rank] at h; omega
  | v6 g =>
    cases y with
    | v4 p => have := p.value_lt; simp only [rank] at h; omega
    | v6 k => rw [Groups.value_inj (g := g) (k := k) (by simpa [rank] using h)]

instance : Ord Address where
  compare := compareOn rank

instance : Std.TransOrd Address := inferInstanceAs <| Std.TransCmp (compareOn rank)

instance : Std.LawfulEqOrd Address where
  eq_of_compare h := rank_inj (Nat.compare_eq_eq.mp h)

theorem compare_eq_lt {x y : Address} : compare x y = .lt ↔ x.rank < y.rank := Nat.compare_eq_lt

end Address

end PolicyAcl
