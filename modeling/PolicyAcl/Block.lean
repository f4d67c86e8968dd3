import PolicyAcl.Family
import PolicyAcl.Fragment

/-! Network blocks and their matches. Blocks keep their order and their repeats;
their texts are not checked. -/
namespace PolicyAcl

/-- A network less a list of excepted networks. -/
structure Block where
  network : String
  excepts : List String
deriving DecidableEq, Repr

namespace Block

def family (block : Block) : Family := .ofNetwork block.network

def field (block : Block) : String := block.family.token ++ ".src"

def comparisons (block : Block) : List String :=
  (block.field ++ " == " ++ block.network) ::
    if block.excepts = [] then []
    else [block.field ++ " != " ++ braced (",".intercalate block.excepts)]

def matchText (block : Block) : String := " && ".intercalate block.comparisons

/-- A block's fragment, then the transport fragment, then the logical-port one. -/
def matchWith (lport l4 : String) (block : Block) : String :=
  conjoin [block.matchText, l4, lport]

def display (block : Block) : String :=
  if block.excepts = [] then block.network
  else block.network ++ " except [" ++ ", ".intercalate block.excepts ++ "]"

end Block

end PolicyAcl
