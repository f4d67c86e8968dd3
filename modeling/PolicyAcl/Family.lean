import PolicyAcl.Address.Basic

/-! What an address family means for match expressions and set names, and the
families a cluster enables. -/
namespace PolicyAcl

namespace Family

def token : Family → String
  | .v4 => "ip4"
  | .v6 => "ip6"

def suffix : Family → String
  | .v4 => "_v4"
  | .v6 => "_v6"

/-- The name of the half of the set `base` that holds this family's addresses. -/
def setName (family : Family) (base : String) : String := base ++ family.suffix

/-- A network text with a colon in it is taken to be IPv6; it is not checked
any further. -/
def ofNetwork (network : String) : Family :=
  if ':' ∈ network.toList then .v6 else .v4

end Family

/-- The enabled address families; at least one is. -/
structure Families where
  ipv4 : Bool
  ipv6 : Bool
  some_enabled : (ipv4 || ipv6) = true
deriving DecidableEq

namespace Families

/-- Fails exactly when neither family is enabled. -/
def ofFlags? (ipv4 ipv6 : Bool) : Option Families :=
  if h : (ipv4 || ipv6) = true then some ⟨ipv4, ipv6, h⟩ else none

def ipv4Only : Families := ⟨true, false, rfl⟩

def ipv6Only : Families := ⟨false, true, rfl⟩

def dualStack : Families := ⟨true, true, rfl⟩

instance : Inhabited Families := ⟨ipv4Only⟩

def isEnabled (families : Families) : Family → Bool
  | .v4 => families.ipv4
  | .v6 => families.ipv6

/-- The enabled families, IPv4 first. -/
def enabled (families : Families) : List Family :=
  [Family.v4, Family.v6].filter families.isEnabled

theorem mem_enabled {families : Families} {family : Family} :
    family ∈ families.enabled ↔ families.isEnabled family = true := by
  cases family <;> simp [enabled]

theorem enabled_ne_nil (families : Families) : families.enabled ≠ [] := by
  intro none
  have absent : ∀ family, families.isEnabled family ≠ true := fun family enabled => by
    have member := mem_enabled.mpr enabled
    simp [none] at member
  have some_enabled := families.some_enabled
  rcases (Bool.or_eq_true ..).mp some_enabled with h | h
  · exact absent .v4 h
  · exact absent .v6 h

end Families

end PolicyAcl
