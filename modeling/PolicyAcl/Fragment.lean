/-! Match fragments. A match is a conjunction of fragments; a fragment that says
nothing is the empty text and is left out of the conjunction. -/
namespace PolicyAcl

/-- The fragments that say something, joined into one conjunction. -/
def conjoin (fragments : List String) : String :=
  " && ".intercalate (fragments.filter (· ≠ ""))

def braced (body : String) : String := "\x7b" ++ body ++ "\x7d"

end PolicyAcl
