import PolicyAcl.Family
import PolicyAcl.Pod
import Std.Data.ExtTreeMap
import Std.Data.ExtTreeSet

/-! The addresses of a rule's peers, counted per address by the pods that
contribute them. A peer set named `base` is backed by one store set per address
family; a family without a backing set has no handle. -/
namespace PolicyAcl

/-- The pods that contribute an address. An address without owners is not in the
peer set at all, so there is always one. -/
structure Owners where
  pods : Std.ExtTreeSet PodKey
  inhabited : pods.isEmpty = false

namespace Owners

def single (pod : PodKey) : Owners := ⟨(∅ : Std.ExtTreeSet PodKey).insert pod, by simp⟩

def add (owners : Owners) (pod : PodKey) : Owners := ⟨owners.pods.insert pod, by simp⟩

/-- Whether a pod is the only owner. -/
def IsLast (owners : Owners) (pod : PodKey) : Prop := (owners.pods.erase pod).isEmpty = true

instance (owners : Owners) (pod : PodKey) : Decidable (owners.IsLast pod) :=
  inferInstanceAs (Decidable (_ = true))

def remove (owners : Owners) (pod : PodKey) (others : ¬owners.IsLast pod) : Owners :=
  ⟨owners.pods.erase pod, by simpa [IsLast] using others⟩

def display (owners : Owners) : String :=
  " ".intercalate (owners.pods.toList.map PodKey.display)

end Owners

/-- The names of the store sets that hold each family's addresses. -/
structure Backing where
  v4 : Option String := none
  v6 : Option String := none
deriving DecidableEq, Repr

namespace Backing

def handle? (backing : Backing) : Family → Option String
  | .v4 => backing.v4
  | .v6 => backing.v6

def put (backing : Backing) (set : String) : Family → Backing
  | .v4 => { backing with v4 := some set }
  | .v6 => { backing with v6 := some set }

def forget (backing : Backing) : Family → Backing
  | .v4 => { backing with v4 := none }
  | .v6 => { backing with v6 := none }

/-- The backing sets that are left to be destroyed, IPv4 first. -/
def remaining (backing : Backing) : List (Family × String) :=
  [.v4, .v6].filterMap fun family => (backing.handle? family).map (family, ·)

/-- To forget the first set that is left is to leave the others. -/
theorem remaining_forget {backing : Backing} {family : Family} {set : String}
    {rest : List (Family × String)} (first : backing.remaining = (family, set) :: rest) :
    (backing.forget family).remaining = rest := by
  obtain ⟨v4, v6⟩ := backing
  cases v4 with
  | some name =>
      obtain ⟨⟨rfl, rfl⟩, others⟩ := by simpa [remaining, handle?] using first
      exact others
  | none =>
      cases v6 with
      | some name =>
          obtain ⟨⟨rfl, rfl⟩, rfl⟩ := by simpa [remaining, handle?] using first
          rfl
      | none => cases first

theorem length_remaining_forget {backing : Backing} {family : Family} {set : String}
    {rest : List (Family × String)} (first : backing.remaining = (family, set) :: rest) :
    (backing.forget family).remaining.length < backing.remaining.length := by
  rw [remaining_forget first, first]
  exact Nat.lt_succ_self rest.length

end Backing

/-- The owners only ever reflect store calls that succeeded. -/
structure PeerSet where
  name : String
  backing : Backing := {}
  owners : Std.ExtTreeMap Address Owners := ∅

namespace PeerSet

def addresses (peers : PeerSet) : List Address := peers.owners.keys

def Owns (peers : PeerSet) (pod : PodKey) (address : Address) : Prop :=
  ∃ owners, peers.owners[address]? = some owners ∧ pod ∈ owners.pods

def contains (peers : PeerSet) (address : Address) : Bool := peers.owners.contains address

def size (peers : PeerSet) : Nat := peers.owners.size

def isEmpty (peers : PeerSet) : Bool := peers.owners.isEmpty

def ownedBy (peers : PeerSet) (pod : PodKey) : List Address :=
  (peers.owners.toList.filter fun entry => entry.2.pods.contains pod).map (·.1)

/-- The address in a field of forty characters, then its owners. -/
def displayLine (entry : Address × Owners) : String :=
  "   " ++ String.ofList (entry.1.write.rightpad 40 ' ') ++ " " ++ entry.2.display ++ "\n"

def display (peers : PeerSet) : String :=
  "address set " ++ peers.name ++ ":\n" ++
    if peers.isEmpty then "   (empty)\n"
    else String.join (peers.owners.toList.map displayLine)

end PeerSet

end PolicyAcl
