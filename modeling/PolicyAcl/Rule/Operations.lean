import PolicyAcl.PeerSet.Operations
import PolicyAcl.Rule.Basic

/-! Operations of a rule on its peer set. Each answers with what the peer set
answered, and leaves the rest of the rule as it was. -/
namespace PolicyAcl.Rule

/-- Run an operation on the rule's peer set, which has to exist. -/
def onPeers (operation : PeerSet → Store → Outcome PeerSet Unit) (rule : Rule) (store : Store) :
    Outcome Rule Unit :=
  match rule.peers with
  | none => ⟨.error (.noPeerSet rule.id.setName), rule, store⟩
  | some peers =>
    let ⟨answer, peers, store⟩ := operation peers store
    ⟨answer, { rule with peers := some peers }, store⟩

/-- Create or fetch the peer set, unless the rule already has it. -/
def ensurePeers (rule : Rule) (store : Store) : Outcome Rule Unit :=
  match rule.peers with
  | some _ => ⟨.ok (), rule, store⟩
  | none =>
    match PeerSet.ensure rule.id.setName rule.families store with
    | (.ok peers, store) => ⟨.ok (), { rule with peers := some peers }, store⟩
    | (.error error, store) => ⟨.error error, rule, store⟩

/-- Record a pod as an owner of each address of an enabled family in turn. -/
def addAddresses (families : Families) (pod : PodKey) :
    List Address → PeerSet → Store → Outcome PeerSet Unit
  | [], peers, store => ⟨.ok (), peers, store⟩
  | address :: addresses, peers, store =>
    if families.isEnabled address.family then
      match peers.addOwner address pod store with
      | ⟨.ok _, peers, store⟩ => addAddresses families pod addresses peers store
      | ⟨.error error, peers, store⟩ => ⟨.error error, peers, store⟩
    else addAddresses families pod addresses peers store

def addEach (families : Families) : List Pod → PeerSet → Store → Outcome PeerSet Unit
  | [], peers, store => ⟨.ok (), peers, store⟩
  | pod :: pods, peers, store =>
    match addAddresses families pod.key pod.addresses peers store with
    | ⟨.ok (), peers, store⟩ => addEach families pods peers store
    | ⟨.error error, peers, store⟩ => ⟨.error error, peers, store⟩

/-- Add the addresses of pods to the peer set. What was added before a failure
stays. -/
def addPods (pods : List Pod) (rule : Rule) (store : Store) : Outcome Rule Unit :=
  rule.onPeers (addEach rule.families pods) store

/-- Remove everything a pod contributed, whatever addresses it has now. -/
def deletePod (pod : Pod) (rule : Rule) (store : Store) : Outcome Rule Unit :=
  rule.onPeers (PeerSet.removeAll pod.key) store

/-- Destroy the peer set, if the rule has one. The rule keeps it until all its
backing sets are destroyed. -/
def destroy (rule : Rule) (store : Store) : Outcome Rule Unit :=
  match rule.peers with
  | none => ⟨.ok (), rule, store⟩
  | some peers =>
    match peers.destroy store with
    | ⟨.ok (), _, store⟩ => ⟨.ok (), { rule with peers := none }, store⟩
    | ⟨.error error, peers, store⟩ =>
      ⟨.error error, { rule with peers := some peers }, store⟩

end PolicyAcl.Rule
