import PolicyAcl.Proofs.Store
import PolicyAcl.Rule.Operations

/-! Sessions: what is done with one rule or one peer set on a store that others
use as well and that is told to refuse calls at any time. -/
namespace PolicyAcl

def Outcome.map {σ α β : Type} (f : α → β) (outcome : Outcome σ α) : Outcome σ β :=
  ⟨outcome.answer.map f, outcome.state, outcome.store⟩

inductive OwnerChange where
  | add (address : Address) (pod : PodKey)
  | remove (address : Address) (pod : PodKey)
  | removeAll (pod : PodKey)

/-- A change at one address answers whether the store was called. -/
def OwnerChange.apply : OwnerChange → PeerSet → Store → Outcome PeerSet (Option Bool)
  | .add address pod, peers, store => (peers.addOwner address pod store).map some
  | .remove address pod, peers, store => (peers.removeOwner address pod store).map some
  | .removeAll pod, peers, store => (peers.removeAll pod store).map fun _ => none

inductive PeerSet.Operation where
  | owners (change : OwnerChange)
  | destroy

def PeerSet.Operation.apply : PeerSet.Operation → PeerSet → Store → Outcome PeerSet (Option Bool)
  | .owners change, peers, store => change.apply peers store
  | .destroy, peers, store => (peers.destroy store).map fun _ => none

namespace Rule

inductive Operation where
  | ensure
  | addPods (pods : List Pod)
  | deletePod (pod : Pod)
  | destroy

def Operation.apply : Operation → Rule → Store → Outcome Rule Unit
  | .ensure, rule, store => rule.ensurePeers store
  | .addPods pods, rule, store => rule.addPods pods store
  | .deletePod pod, rule, store => rule.deletePod pod store
  | .destroy, rule, store => rule.destroy store

inductive Edit where
  | addBlock (block : Block)
  | addPort (port : PortPolicy)
  | addNamespace (name : String)
  | removeNamespace (name : String)

def Edit.apply : Edit → Rule → Rule
  | .addBlock block, rule => rule.addBlock block
  | .addPort port, rule => rule.addPort port
  | .addNamespace name, rule => (rule.addNamespace name).2
  | .removeNamespace name, rule => (rule.removeNamespace name).2

inductive Action where
  | work (operation : Operation)
  | edit (change : Edit)

def Action.apply : Action → Rule → Store → Rule × Store
  | .work operation, rule, store =>
    ((operation.apply rule store).state, (operation.apply rule store).store)
  | .edit change, rule, store => (change.apply rule, store)

/-- Work directly on the peer set of a rule, if it has one. -/
def direct (operation : PeerSet.Operation) (rule : Rule) (store : Store) : Rule × Store :=
  match rule.peers with
  | none => (rule, store)
  | some peers =>
    ({ rule with peers := some (operation.apply peers store).state },
      (operation.apply peers store).store)

end Rule

/-- Operations of a rule, and operations made directly on its peer set. -/
def Rule.use : Rule.Action ⊕ PeerSet.Operation → Rule → Store → Rule × Store
  | .inl action, rule, store => action.apply rule store
  | .inr operation, rule, store => rule.direct operation store

def PeerSet.use (operation : PeerSet.Operation) (peers : PeerSet) (store : Store) :
    PeerSet × Store :=
  ((operation.apply peers store).state, (operation.apply peers store).store)

/-- What happens in a session: an operation of its own, a change of what the store
refuses, or a store call of somebody else. -/
inductive Event (ω : Type) where
  | act (operation : ω)
  | failOn (op : Store.Op)
  | block (op : Store.Op) (set : String)
  | clearFaults
  | foreign (call : Store.Call)

namespace Event

variable {ω σ : Type}

def apply (act : ω → σ → Store → σ × Store) : Event ω → σ × Store → σ × Store
  | .act operation, (state, store) => act operation state store
  | .failOn op, (state, store) => (state, store.failOn op)
  | .block op set, (state, store) => (state, store.block op set)
  | .clearFaults, (state, store) => (state, store.clearFaults)
  | .foreign call, (state, store) => (state, (store.submit call).2)

def run (act : ω → σ → Store → σ × Store) : List (Event ω) → σ × Store → σ × Store
  | [], now => now
  | event :: events, now => run act events (event.apply act now)

theorem run_append (act : ω → σ → Store → σ × Store) (before since : List (Event ω))
    (now : σ × Store) : run act (before ++ since) now = run act since (run act before now) := by
  induction before generalizing now with
  | nil => rfl
  | cons event before ih => exact ih (event.apply act now)

/-- What every operation of the session keeps, and every call of somebody else in
it, is kept by the session; faults change nothing but what is refused. -/
theorem run_preserves (act : ω → σ → Store → σ × Store) (Inv : σ → Store.Contents → Prop)
    (acts : ∀ operation state (store : Store), Inv state store.contents →
      Inv (act operation state store).1 (act operation state store).2.contents)
    {events : List (Event ω)}
    (foreign : ∀ call, .foreign call ∈ events → ∀ state (store : Store), Inv state store.contents →
      Inv state (store.submit call).2.contents)
    {state : σ} {store : Store} (start : Inv state store.contents) :
    Inv (run act events (state, store)).1 (run act events (state, store)).2.contents := by
  induction events generalizing state store with
  | nil => exact start
  | cons event events ih =>
      have later : ∀ call, .foreign call ∈ events → ∀ state (store : Store), Inv state store.contents →
          Inv state (store.submit call).2.contents :=
        fun call member => foreign call (List.mem_cons_of_mem event member)
      cases event with
      | act operation => exact ih later (acts operation state store start)
      | failOn op => exact ih later start
      | block op set => exact ih later start
      | clearFaults => exact ih later start
      | foreign call => exact ih later (foreign call List.mem_cons_self state store start)

/-- Somebody else's call names neither half of an address set. -/
def Spares (base : String) : Event ω → Prop
  | .foreign call => ∀ family, call.set ≠ Family.setName family base
  | _ => True

end Event

end PolicyAcl
