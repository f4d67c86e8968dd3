import PolicyAcl.PeerSet.Basic
import PolicyAcl.Store

/-! Operations on a peer set and its store. The store is called only when an
address gains its first owner or loses its last one, and an operation stops at
the first store call that fails. -/
namespace PolicyAcl

/-- Why an operation on a peer set fails. The store's own error is kept. -/
inductive PeerError where
  | noPeerSet (rule : String)
  | noFamilySet (set : String) (address : Address)
  | ensure (set : String) (cause : Store.Error)
  | add (set : String) (address : Address) (cause : Store.Error)
  | delete (set : String) (address : Address) (cause : Store.Error)
  | destroy (set : String) (cause : Store.Error)
deriving DecidableEq, Repr

namespace PeerError

def storeError? : PeerError → Option Store.Error
  | .noPeerSet _ => none
  | .noFamilySet _ _ => none
  | .ensure _ cause => some cause
  | .add _ _ cause => some cause
  | .delete _ _ cause => some cause
  | .destroy _ cause => some cause

def message : PeerError → String
  | .noPeerSet rule => "Rule " ++ rule ++ " has no peer address set"
  | .noFamilySet set address =>
    "Address set " ++ set ++ " has no backing set for the address family of " ++ address.text
  | .ensure set cause => "Failed to ensure address set " ++ set ++ ": " ++ cause.message
  | .add set address cause =>
    "Failed to add " ++ address.text ++ " to address set " ++ set ++ ": " ++ cause.message
  | .delete set address cause =>
    "Failed to delete " ++ address.text ++ " from address set " ++ set ++ ": " ++ cause.message
  | .destroy set cause => "Failed to destroy address set " ++ set ++ ": " ++ cause.message

end PeerError

/-- What an operation leaves behind: its answer, the state it works on, and the
store. -/
structure Outcome (σ α : Type) where
  answer : Except PeerError α
  state : σ
  store : Store

namespace PeerSet

def ensureEach (name : String) : List Family → Backing → Store → Outcome Backing Unit
  | [], backing, store => ⟨.ok (), backing, store⟩
  | family :: families, backing, store =>
    let set := family.setName name
    match store.submit (.ensure set) with
    | (.ok (), store) => ensureEach name families (backing.put set family) store
    | (.error cause, store) => ⟨.error (.ensure set cause), backing, store⟩

/-- Create or fetch the store sets of the enabled families. Sets provided before
a failure stay in the store. -/
def ensure (name : String) (families : Families) (store : Store) : Except PeerError PeerSet × Store :=
  match ensureEach name families.enabled {} store with
  | ⟨.ok (), backing, store⟩ => (.ok { name, backing }, store)
  | ⟨.error error, _, store⟩ => (.error error, store)

/-- Record a pod as an owner of an address. The answer tells whether the address
was added to the store. -/
def addOwner (address : Address) (pod : PodKey) (peers : PeerSet) (store : Store) :
    Outcome PeerSet Bool :=
  match peers.owners[address]? with
  | some owners =>
    ⟨.ok false, { peers with owners := peers.owners.insert address (owners.add pod) }, store⟩
  | none =>
    match peers.backing.handle? address.family with
    | none => ⟨.error (.noFamilySet peers.name address), peers, store⟩
    | some set =>
      match store.submit (.add set [address]) with
      | (.ok (), store) =>
        ⟨.ok true, { peers with owners := peers.owners.insert address (.single pod) }, store⟩
      | (.error cause, store) => ⟨.error (.add set address cause), peers, store⟩

/-- Forget a pod as an owner of an address. The answer tells whether the address
was removed from the store. -/
def removeOwner (address : Address) (pod : PodKey) (peers : PeerSet) (store : Store) :
    Outcome PeerSet Bool :=
  match peers.owners[address]? with
  | none => ⟨.ok false, peers, store⟩
  | some owners =>
    if pod ∉ owners.pods then ⟨.ok false, peers, store⟩
    else if others : ¬owners.IsLast pod then
      ⟨.ok false, { peers with owners := peers.owners.insert address (owners.remove pod others) },
        store⟩
    else
      match peers.backing.handle? address.family with
      | none => ⟨.error (.noFamilySet peers.name address), peers, store⟩
      | some set =>
        match store.submit (.delete set [address]) with
        | (.ok (), store) => ⟨.ok true, { peers with owners := peers.owners.erase address }, store⟩
        | (.error cause, store) => ⟨.error (.delete set address cause), peers, store⟩

def removeEach (pod : PodKey) : List Address → PeerSet → Store → Outcome PeerSet Unit
  | [], peers, store => ⟨.ok (), peers, store⟩
  | address :: addresses, peers, store =>
    match peers.removeOwner address pod store with
    | ⟨.ok _, peers, store⟩ => removeEach pod addresses peers store
    | ⟨.error error, peers, store⟩ => ⟨.error error, peers, store⟩

/-- Forget a pod as an owner of every address it contributes, in address order. -/
def removeAll (pod : PodKey) (peers : PeerSet) (store : Store) : Outcome PeerSet Unit :=
  removeEach pod (peers.ownedBy pod) peers store

/-- Destroy the backing sets, always the first one that is left. A set is forgotten as soon
as it is destroyed, so that a later call only has the remaining ones to destroy. -/
def destroy (peers : PeerSet) (store : Store) : Outcome PeerSet Unit :=
  match left : peers.backing.remaining with
  | [] => ⟨.ok (), peers, store⟩
  | (family, set) :: _ =>
    match store.submit (.destroy set) with
    | (.ok (), store) =>
      have := Backing.length_remaining_forget left
      destroy { peers with backing := peers.backing.forget family } store
    | (.error cause, store) => ⟨.error (.destroy set cause), peers, store⟩
-- Every turn but the last leaves one set less.
termination_by peers.backing.remaining.length

end PeerSet

end PolicyAcl
