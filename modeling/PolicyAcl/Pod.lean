import PolicyAcl.Address.Text

/-! Pods as peers. A pod is told apart by its key; its addresses are a list
without repeats, in the order in which they were first seen. -/
namespace PolicyAcl

structure PodKey where
  ns : String
  name : String
deriving DecidableEq, Repr

namespace PodKey

/-- Pods are ordered by namespace, then by name. -/
instance : Ord PodKey where
  compare := compareLex (compareOn ns) (compareOn name)

instance : Std.TransOrd PodKey :=
  inferInstanceAs <| Std.TransCmp (compareLex (compareOn ns) (compareOn name))

instance : Std.LawfulEqOrd PodKey where
  eq_of_compare {key other} h := by
    obtain ⟨sameNs, sameName⟩ := compareLex_eq_eq.mp h
    obtain ⟨ns, name⟩ := key
    obtain ⟨ns', name'⟩ := other
    rw [show ns = ns' from Std.LawfulEqOrd.eq_of_compare sameNs,
      show name = name' from Std.LawfulEqOrd.eq_of_compare sameName]

def display (key : PodKey) : String := key.ns ++ "/" ++ key.name

end PodKey

theorem eraseDups_nodup (addresses : List Address) : addresses.eraseDups.Nodup := by
  match addresses with
  | [] => simp
  | address :: rest =>
    rw [List.eraseDups_cons, List.nodup_cons]
    refine ⟨?_, eraseDups_nodup _⟩
    intro member
    have := List.mem_eraseDups.mp member
    simp at this
termination_by addresses.length
decreasing_by
  simp only [List.length_cons]
  exact Nat.lt_succ_of_le (List.length_filter_le _ _)

structure Pod where
  key : PodKey
  addresses : List Address
  nodup : addresses.Nodup
deriving DecidableEq

namespace Pod

/-- A repeated address is kept at its first place only. -/
def ofAddresses (key : PodKey) (addresses : List Address) : Pod :=
  ⟨key, addresses.eraseDups, eraseDups_nodup addresses⟩

def display (pod : Pod) : String :=
  pod.key.display ++ " [" ++ ", ".intercalate (pod.addresses.map Address.text) ++ "]"

end Pod

end PolicyAcl
