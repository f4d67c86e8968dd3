import Std.Data.ExtTreeMap
import Std.Data.ExtTreeSet
import PolicyAcl.Address.Text

/-! An address-set store held in memory. Sets are looked up by name at every
call, so a handle is just a name and outlives its set. The store can be told to
refuse calls of a kind, or calls of a kind on one set, and it keeps a journal of
all calls made on it. -/
namespace PolicyAcl

abbrev AddressSet := Std.ExtTreeSet Address

namespace Store

inductive Op where
  | ensure
  | add
  | delete
  | destroy
deriving DecidableEq, Repr

def Op.name : Op → String
  | .ensure => "Ensure"
  | .add => "Add"
  | .delete => "Delete"
  | .destroy => "Destroy"

inductive Error where
  | notFound (set : String)
  | invalidName (set : String)
  | failure (set reason : String)
deriving DecidableEq, Repr

def Error.message : Error → String
  | .notFound set => "Address set " ++ set ++ " does not exist"
  | .invalidName set => "Invalid address set name: '" ++ set ++ "'"
  | .failure set reason => "Store failure on address set " ++ set ++ ": " ++ reason

/-- A call names the one set it is about. -/
inductive Call where
  | ensure (set : String)
  | add (set : String) (addresses : List Address)
  | delete (set : String) (addresses : List Address)
  | destroy (set : String)
deriving DecidableEq, Repr

def Call.op : Call → Op
  | .ensure _ => .ensure
  | .add _ _ => .add
  | .delete _ _ => .delete
  | .destroy _ => .destroy

def Call.set : Call → String
  | .ensure set => set
  | .add set _ => set
  | .delete set _ => set
  | .destroy set => set

/-- The sets in the store, and how often each name was created. -/
structure Contents where
  sets : Std.ExtTreeMap String AddressSet := ∅
  creations : Std.ExtTreeMap String Nat := ∅

namespace Contents

/-- Creating an existing set changes nothing. -/
def ensure (contents : Contents) (set : String) : Contents :=
  if set ∈ contents.sets then contents
  else
    { sets := contents.sets.insert set ∅
      creations := contents.creations.insert set (contents.creations.getD set 0 + 1) }

/-- Change the addresses of a set, which has to exist. -/
def update (contents : Contents) (set : String) (change : AddressSet → AddressSet) :
    Except Error Contents :=
  match contents.sets[set]? with
  | some addresses =>
    .ok { contents with sets := contents.sets.insert set (change addresses) }
  | none => .error (.notFound set)

/-- What a call does when nothing refuses it. Destroying an absent set is no
error, and the empty name is never created. -/
def perform (contents : Contents) : Call → Except Error Contents
  | .ensure set => if set = "" then .error (.invalidName set) else .ok (contents.ensure set)
  | .add set addresses => contents.update set fun old => addresses.foldl (·.insert ·) old
  | .delete set addresses => contents.update set fun old => addresses.foldl (·.erase ·) old
  | .destroy set => .ok { contents with sets := contents.sets.erase set }

end Contents

/-- The kinds of call that fail, and the kinds of call that are kept from a set. -/
structure Faults where
  failing : List Op := []
  blocked : List (Op × String) := []
deriving DecidableEq, Repr

def Faults.blocks (faults : Faults) (call : Call) : Bool :=
  (call.op, call.set) ∈ faults.blocked

/-- The error a call is refused with, whatever the contents are. -/
def Faults.refusal? (faults : Faults) (call : Call) : Option Error :=
  if faults.blocks call then some (.failure call.set "blocked")
  else if call.op ∈ faults.failing then
    some (.failure call.set ("injected " ++ call.op.name ++ " failure"))
  else none

/-- A call that was made, whether it got past the blocks, and how it failed. -/
structure Entry where
  call : Call
  reached : Bool
  error : Option Error
deriving DecidableEq, Repr

end Store

/-- The journal is kept with the latest call first. -/
structure Store where
  contents : Store.Contents := {}
  faults : Store.Faults := {}
  journal : List Store.Entry := []

namespace Store

def answer (store : Store) (call : Call) : Except Error Contents :=
  match store.faults.refusal? call with
  | some error => .error error
  | none => store.contents.perform call

def record (store : Store) (call : Call) (error : Option Error) : Store :=
  { store with
    journal := { call, reached := !store.faults.blocks call, error } :: store.journal }

/-- Make a call. A call that fails changes nothing but the journal. -/
def submit (store : Store) (call : Call) : Except Error Unit × Store :=
  match store.answer call with
  | .ok contents => (.ok (), { store.record call none with contents })
  | .error error => (.error error, store.record call (some error))

def failOn (store : Store) (op : Op) : Store :=
  { store with faults.failing := op :: store.faults.failing }

def block (store : Store) (op : Op) (set : String) : Store :=
  { store with faults.blocked := (op, set) :: store.faults.blocked }

def clearFaults (store : Store) : Store := { store with faults := {} }

def addresses? (store : Store) (set : String) : Option (List Address) :=
  store.contents.sets[set]?.map (·.toList)

def size (store : Store) : Nat := store.contents.sets.size

def creations (store : Store) (set : String) : Nat := store.contents.creations.getD set 0

/-- How many calls of a kind reached the store, failed ones included. -/
def calls (store : Store) (op : Op) : Nat :=
  store.journal.countP fun entry => entry.reached && entry.call.op = op

inductive Mismatch where
  | badAddress (text : String)
  | missing (set : String)
  | unexpected (set : String)
  | present (set : String)
deriving DecidableEq, Repr

def Mismatch.message : Mismatch → String
  | .badAddress text => "bad test ip " ++ text ++ ": " ++ Address.syntaxMessage
  | .missing set => "address set " ++ set ++ " does not exist"
  | .unexpected set => "unexpected contents for address set " ++ set
  | .present set => "address set " ++ set ++ " should not exist"

/-- The addresses that texts spell, or the first text that spells none. -/
def expectedAddresses : List String → Except Mismatch (List Address)
  | [] => .ok []
  | text :: texts =>
    match Address.ofText? text with
    | some address => (expectedAddresses texts).map (address :: ·)
    | none => .error (.badAddress text)

def expect (store : Store) (set : String) (texts : List String) : Except Mismatch Unit := do
  let expected ← expectedAddresses texts
  match store.contents.sets[set]? with
  | none => throw (.missing set)
  | some actual =>
    if actual.toList = (Std.ExtTreeSet.ofList expected).toList then pure ()
    else throw (.unexpected set)

def expectEmpty (store : Store) (set : String) : Except Mismatch Unit := store.expect set []

def expectAbsent (store : Store) (set : String) : Except Mismatch Unit :=
  if set ∈ store.contents.sets then .error (.present set) else .ok ()

end Store

end PolicyAcl
