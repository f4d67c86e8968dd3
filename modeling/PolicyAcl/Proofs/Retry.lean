import PolicyAcl.Proofs.Bookkeeping
import PolicyAcl.Proofs.Spending

/-! Retrying an operation of a rule under changing faults. A failed attempt is a
prefix of the fault-free run, and the next attempt takes no work over the items that
are settled, so that it ends where the fault-free run ends. -/
namespace PolicyAcl

open Store (Call Contents Entry Faults)

/-- Work that ends, once it succeeds, as it ends when nothing is refused, however far
the attempts before came. -/
structure Resumable {σ : Type} (work : σ → Store → Outcome σ Unit)
    (perform : σ → Contents → Except PeerError (σ × Contents)) : Prop where
  done : ∀ state store next after, work state store = ⟨.ok (), next, after⟩ →
    perform state store.contents = .ok (next, after.contents)
  left : ∀ state store error next after, work state store = ⟨.error error, next, after⟩ →
    perform next after.contents = perform state store.contents
  refused : ∀ state store error next after, store.faults = {} →
    work state store = ⟨.error error, next, after⟩ → perform state store.contents = .error error

/-- Attempts under given faults and at last one without faults, up to the first that
succeeds. -/
def retry {σ : Type} (work : σ → Store → Outcome σ Unit) :
    List Faults → σ → Store → Outcome σ Unit
  | [], state, store => work state (store.withFaults {})
  | faults :: rest, state, store =>
    match work state (store.withFaults faults) with
    | ⟨.ok (), state, store⟩ => ⟨.ok (), state, store⟩
    | ⟨.error _, state, store⟩ => retry work rest state store

section
variable {σ : Type} {work : σ → Store → Outcome σ Unit}
  {perform : σ → Contents → Except PeerError (σ × Contents)} {Inv : σ → Prop}
  {Spent : Call → σ → Prop} {state next : σ} {contents : Contents} {store : Store}

theorem Resumable.retry (resumable : Resumable work perform) (faults : List Faults)
    (performed : perform state store.contents = .ok (next, contents)) :
    (retry work faults state store).answer = .ok () ∧
      (retry work faults state store).state = next ∧
      (retry work faults state store).store.contents = contents := by
  induction faults generalizing state store with
  | nil =>
      rw [PolicyAcl.retry]
      cases attempt : work state (store.withFaults {}) with
      | mk answer reached after =>
          cases answer with
          | ok done =>
              have ended := resumable.done _ _ _ _ attempt
              rw [Store.withFaults_contents, performed] at ended
              cases ended
              exact ⟨rfl, rfl, rfl⟩
          | error error =>
              have ended := resumable.refused _ _ _ _ _ rfl attempt
              rw [Store.withFaults_contents, performed] at ended
              cases ended
  | cons fault rest ih =>
      rw [PolicyAcl.retry]
      split
      next reached after attempt =>
        have ended := resumable.done _ _ _ _ attempt
        rw [Store.withFaults_contents, performed] at ended
        cases ended
        exact ⟨rfl, rfl, rfl⟩
      next error reached after attempt =>
        -- From here the work comes to what it came to from the start.
        refine ih ?_
        rw [resumable.left _ _ _ _ _ attempt, Store.withFaults_contents, performed]

theorem Frugal.retry (frugal : Frugal work Inv Spent) (faults : List Faults) (inv : Inv state) :
    ∃ entries, (retry work faults state store).store.journal = entries ++ store.journal ∧
      Advance Spent state (retry work faults state store).state entries := by
  induction faults generalizing state store with
  | nil => exact (frugal state (store.withFaults {}) inv).2
  | cons fault rest ih =>
      obtain ⟨kept, first, called, before⟩ := frugal state (store.withFaults fault) inv
      rw [PolicyAcl.retry]
      generalize work state (store.withFaults fault) = outcome at kept called before
      obtain ⟨answer, reached, after⟩ := outcome
      cases answer with
      | ok done => exact ⟨first, called, before⟩
      | error error =>
          obtain ⟨second, calledToo, rest⟩ := ih kept
          refine ⟨second ++ first, ?_, before.trans rest⟩
          rw [calledToo, called, Store.withFaults_journal, List.append_assoc]

end

theorem Intent.each_resumable {σ α : Type} {plan : α → σ → Intent σ} (Settled : α → σ → Prop)
    (rests : ∀ item state, Settled item state → plan item state = .quiet state)
    (settles : ∀ item state contents next after,
      (plan item state).perform contents = .ok (next, after) → Settled item next)
    (keeps : ∀ item other state contents next after, Settled other state →
      (plan item state).perform contents = .ok (next, after) → Settled other next)
    (items : List α) : Resumable (each plan items) (performEach plan items) where
  done _ _ _ _ ended := each_done ended
  left _ _ _ _ _ failed := performEach_resume Settled rests settles keeps failed
  refused _ _ _ _ _ faultless failed := by
    rw [each_faultless faultless, failed]

namespace PeerSet

variable {peers next : PeerSet} {contents after : Contents} {pod : PodKey}

theorem addPlan_resumable (entries : List (Address × PodKey)) :
    Resumable (Intent.each addPlan entries) (Intent.performEach addPlan entries) := by
  refine Intent.each_resumable (fun entry peers => entry ∈ peers.ownership) ?_ ?_ ?_ entries
  · rintro ⟨address, pod⟩ peers owner
    exact addPlan_of_owner owner
  · rintro ⟨address, pod⟩ peers contents next after performed
    rw [addPlan_ownership performed]
    exact Set.mem_insert _ _
  · rintro ⟨address, pod⟩ other peers contents next after owner performed
    rw [addPlan_ownership performed]
    exact Set.mem_insert_of_mem _ owner

theorem destroy_resumable :
    Resumable PeerSet.destroy (Intent.performEach destroyPlan [.v4, .v6]) := by
  have same : PeerSet.destroy = Intent.each destroyPlan [.v4, .v6] :=
    funext fun peers => funext fun store => destroy_eq peers store
  rw [same]
  refine Intent.each_resumable
    (fun (family : Family) (peers : PeerSet) => peers.backing.handle? family = none) ?_ ?_ ?_ _
  · intro family peers released
    exact destroyPlan_released released
  · intro family peers contents next after performed
    rw [destroyPlan_next performed, if_pos rfl]
  · intro family other peers contents next after released performed
    rw [destroyPlan_next performed, released, ite_self]

/-- After some of the addresses of a pod are removed, it owns the rest of them. -/
theorem ownedBy_rest {done rest : List Address} (split : peers.ownedBy pod = done ++ rest)
    (performed : Intent.performEach (removePlan pod) done peers contents = .ok (next, after)) :
    next.ownedBy pod = rest := by
  have sorted := peers.ownedBy_sorted pod
  rw [split] at sorted
  obtain ⟨-, restSorted, apart⟩ := List.pairwise_append.mp sorted
  refine (next.ownedBy_sorted pod).eq_of_mem_iff restSorted fun address => ?_
  have owned : address ∈ done ++ rest ↔ peers.Owns pod address := by
    rw [← split, mem_ownedBy]
  rw [mem_ownedBy, ← mem_ownership, performEach_removes performed, Set.mem_sdiff, mem_ownership,
    ← owned, List.mem_append]
  simp only [Set.mem_ofPred_eq, and_true]
  constructor
  · rintro ⟨early | late, left⟩
    · exact absurd early left
    · exact late
  · intro late
    exact ⟨.inr late, fun early => Nat.lt_irrefl _ (apart address early address late)⟩

theorem removeAll_resumable (pod : PodKey) :
    Resumable (PeerSet.removeAll pod) fun peers =>
      Intent.performEach (removePlan pod) (peers.ownedBy pod) peers where
  -- An attempt lists the addresses anew, and finds the rest of the former list.
  done peers store next after ended := by
    rw [removeAll, removeEach_eq] at ended
    exact Intent.each_done ended
  left peers store error next after failed := by
    rw [removeAll, removeEach_eq] at failed
    obtain ⟨done, rest, split, performed, -⟩ :=
      Intent.each_performs_prefix (removePlan pod) (peers.ownedBy pod) peers store
    rw [failed] at performed
    rw [ownedBy_rest split performed, split, Intent.performEach_append, performed]
  refused peers store error next after faultless failed := by
    rw [removeAll, removeEach_eq] at failed
    rw [Intent.each_faultless faultless, failed]

theorem performEach_ensure_backing {name : String} {families : List Family}
    {backing reached : Backing}
    (performed : Intent.performEach (ensurePlan name) families backing contents =
      .ok (reached, after)) :
    reached = families.foldl (fun backing family => backing.put (family.setName name) family)
      backing := by
  induction families generalizing backing contents with
  | nil =>
      cases performed
      rfl
  | cons family families ih =>
      rw [Intent.performEach] at performed
      split at performed
      next middle between first =>
        rw [ih performed, ensurePlan_next first, List.foldl_cons]
      next => cases performed

theorem performEach_ensure_present {name : String} {families : List Family}
    (present : ∀ family ∈ families, family.setName name ∈ contents.sets) (backing : Backing) :
    Intent.performEach (ensurePlan name) families backing contents =
      .ok (families.foldl (fun backing family => backing.put (family.setName name) family) backing,
        contents) := by
  induction families generalizing backing with
  | nil => rfl
  | cons family families ih =>
      have kept : contents.ensure (family.setName name) = contents :=
        if_pos (present family List.mem_cons_self)
      have first : (ensurePlan name family backing).perform contents =
          .ok (backing.put (family.setName name) family, contents) := by
        rw [ensurePlan, Intent.perform_submit, Contents.perform,
          if_neg (Family.setName_ne_empty family name), kept]
        exact ⟨rfl, rfl⟩
      rw [Intent.performEach, first]
      exact ih (fun other member => present other (List.mem_cons_of_mem family member)) _

theorem performEach_ensure_again {name : String} {families : List Family}
    {backing reached : Backing}
    (performed : Intent.performEach (ensurePlan name) families backing contents =
      .ok (reached, after)) :
    Intent.performEach (ensurePlan name) families backing after = .ok (reached, after) := by
  have present : ∀ family ∈ families, family.setName name ∈ after.sets := by
    intro family member
    refine Intent.performEach_settles
      (fun family _ contents => Family.setName family name ∈ contents.sets) ?_ ?_ performed (.inl member)
    · intro item backing contents next after ensured
      rw [ensurePlan, Intent.perform_submit] at ensured
      rw [Std.ExtTreeMap.mem_iff_isSome_getElem?, Contents.perform_sets ensured.2]
      simp [Call.set, Call.effect]
    · intro item other backing contents next after there ensured
      rw [ensurePlan, Intent.perform_submit] at ensured
      rw [Std.ExtTreeMap.mem_iff_isSome_getElem?] at there
      rw [Std.ExtTreeMap.mem_iff_isSome_getElem?, Contents.perform_sets ensured.2]
      split
      · simp [Call.effect]
      · exact there
  rw [performEach_ensure_present present, performEach_ensure_backing performed]

end PeerSet

namespace Rule

open PeerSet (addPlan removePlan destroyPlan ensurePlan)

def performOn (perform : PeerSet → Contents → Except PeerError (PeerSet × Contents)) (rule : Rule)
    (contents : Contents) : Except PeerError (Rule × Contents) :=
  match rule.peers with
  | none => .error (.noPeerSet rule.id.setName)
  | some peers =>
    match perform peers contents with
    | .ok (peers, contents) => .ok ({ rule with peers := some peers }, contents)
    | .error error => .error error

/-- What an operation comes to when nothing is refused. -/
def Operation.perform : Operation → Rule → Contents → Except PeerError (Rule × Contents)
  | .ensure, rule, contents =>
    match rule.peers with
    | some _ => .ok (rule, contents)
    | none =>
      match Intent.performEach (ensurePlan rule.id.setName) rule.families.enabled {} contents with
      | .ok (backing, contents) =>
        .ok ({ rule with peers := some { name := rule.id.setName, backing } }, contents)
      | .error error => .error error
  | .addPods pods, rule, contents =>
    rule.performOn (Intent.performEach addPlan (contributions rule.families pods)) contents
  | .deletePod pod, rule, contents =>
    rule.performOn
      (fun peers => Intent.performEach (removePlan pod.key) (peers.ownedBy pod.key) peers) contents
  | .destroy, rule, contents =>
    match rule.peers with
    | none => .ok (rule, contents)
    | some peers =>
      match Intent.performEach destroyPlan [.v4, .v6] peers contents with
      | .ok (_, contents) => .ok ({ rule with peers := none }, contents)
      | .error error => .error error

theorem onPeers_resumable {work : Families → PeerSet → Store → Outcome PeerSet Unit}
    {perform : Families → PeerSet → Contents → Except PeerError (PeerSet × Contents)}
    (resumable : ∀ families, Resumable (work families) (perform families)) :
    Resumable (fun rule store => Rule.onPeers (work rule.families) rule store)
      (fun rule contents => rule.performOn (perform rule.families) contents) where
  done rule store next after ended := by
    rcases onPeers_cases ended with ⟨-, failed, -⟩ | ⟨peers, reached, some, worked, rfl⟩
    · cases failed
    · rw [performOn, some]
      simp only [(resumable rule.families).done _ _ _ _ worked]
  left rule store error next after failed := by
    rcases onPeers_cases failed with ⟨-, -, rfl, rfl⟩ | ⟨peers, reached, some, worked, rfl⟩
    · rfl
    · simp only [performOn, some, (resumable rule.families).left _ _ _ _ _ worked]
  refused rule store error next after faultless failed := by
    rcases onPeers_cases failed with ⟨none, same, -⟩ | ⟨peers, reached, some, worked, rfl⟩
    · rw [performOn, none, Except.error.inj same]
    · rw [performOn, some]
      simp only [(resumable rule.families).refused _ _ _ _ _ faultless worked]

theorem ensurePeers_resumable : Resumable ensurePeers Operation.ensure.perform where
  done rule store next after ended := by
    rcases ensurePeers_cases ended with
      ⟨present, -, rfl, rfl⟩ | ⟨peers, none, -, ensured, rfl⟩ | ⟨error, -, same, -⟩
    · obtain ⟨peers, some⟩ := Option.ne_none_iff_exists'.mp present
      rw [Operation.perform, some]
    · obtain ⟨backing, worked, rfl⟩ := PeerSet.ensure_ok ensured
      rw [Operation.perform, none, Intent.each_done worked]
    · cases same
  left rule store error next after failed := by
    rcases ensurePeers_cases failed with
      ⟨-, same, -⟩ | ⟨peers, -, same, -⟩ | ⟨error, none, -, ensured, rfl⟩
    · cases same
    · cases same
    · obtain ⟨backing, worked⟩ := PeerSet.ensure_error ensured
      obtain ⟨done, rest, split, performed, -⟩ :=
        Intent.each_performs_prefix (ensurePlan next.id.setName) next.families.enabled {} store
      rw [worked] at performed
      -- The next attempt starts without handles, but finds the sets that are done.
      simp only [Operation.perform, none, split, Intent.performEach_append, performed,
        PeerSet.performEach_ensure_again performed]
  refused rule store error next after faultless failed := by
    rcases ensurePeers_cases failed with
      ⟨-, same, -⟩ | ⟨peers, -, same, -⟩ | ⟨error, none, same, ensured, rfl⟩
    · cases same
    · cases same
    · obtain ⟨backing, worked⟩ := PeerSet.ensure_error ensured
      rw [Operation.perform, none, Intent.each_faultless faultless, worked, Except.error.inj same]

theorem destroy_resumable : Resumable destroy Operation.destroy.perform where
  done rule store next after ended := by
    rcases destroy_cases ended with
      ⟨none, -, rfl, rfl⟩ | ⟨peers, reached, some, -, worked, rfl⟩ | ⟨error, peers, reached, -, same, -⟩
    · rw [Operation.perform, none]
    · simp only [Operation.perform, some, PeerSet.destroy_resumable.done _ _ _ _ worked]
    · cases same
  left rule store error next after failed := by
    rcases destroy_cases failed with
      ⟨-, same, -⟩ | ⟨peers, reached, -, same, -⟩ | ⟨error, peers, reached, some, -, worked, rfl⟩
    · cases same
    · cases same
    · simp only [Operation.perform, some, PeerSet.destroy_resumable.left _ _ _ _ _ worked]
  refused rule store error next after faultless failed := by
    rcases destroy_cases failed with
      ⟨-, same, -⟩ | ⟨peers, reached, -, same, -⟩ | ⟨error, peers, reached, some, same, worked, rfl⟩
    · cases same
    · cases same
    · rw [Operation.perform, some, Except.error.inj same]
      simp only [PeerSet.destroy_resumable.refused _ _ _ _ _ faultless worked]

theorem Operation.resumable (operation : Operation) :
    Resumable operation.apply operation.perform := by
  cases operation with
  | ensure => exact ensurePeers_resumable
  | addPods pods =>
      have each (families : Families) : Resumable (addEach families pods)
          (Intent.performEach addPlan (contributions families pods)) := by
        have same : addEach families pods = Intent.each addPlan (contributions families pods) :=
          funext fun peers => funext fun store => addEach_eq families pods peers store
        rw [same]
        exact PeerSet.addPlan_resumable _
      exact onPeers_resumable each
  | deletePod pod => exact onPeers_resumable fun _ => PeerSet.removeAll_resumable pod.key
  | destroy => exact destroy_resumable

end Rule

/-- An operation that would succeed is retried under any faults until it does: it ends
with the rule and the contents that it would have led to at once, and no call that
changed the store is made a second time. -/
theorem retry_converges (rule : Rule) (store : Store) (fresh : rule.peers = none)
    (events : List (Event Rule.Action)) (operation : Rule.Operation) (faults : List Faults) :
    let (reached, before) := Event.run Rule.Action.apply events (rule, store)
    let once := operation.apply reached (before.withFaults {})
    let retried := retry operation.apply faults reached before
    once.answer = .ok () →
      retried.answer = .ok () ∧ retried.state = once.state ∧
      retried.store.contents = once.store.contents ∧
      ∃ entries, retried.store.journal = entries ++ before.journal ∧
        entries.Pairwise Entry.Unrepeated := by
  have named : (Event.run Rule.Action.apply events (rule, store)).1.Named :=
    Rule.Named.run (fun peers some => absurd some (by simp [fresh])) events store
  generalize Event.run Rule.Action.apply events (rule, store) = now at named
  obtain ⟨reached, before⟩ := now
  intro succeeds
  cases once : operation.apply reached (before.withFaults {}) with
  | mk answer ended after =>
      rw [once] at succeeds
      obtain rfl : answer = .ok () := succeeds
      have performed : operation.perform reached before.contents = .ok (ended, after.contents) :=
        operation.resumable.done reached (before.withFaults {}) ended after once
      obtain ⟨answer, state, contents⟩ := operation.resumable.retry faults performed
      obtain ⟨entries, called, advance⟩ := operation.frugal.retry faults named
      exact ⟨answer, state, contents, entries, called, advance.unrepeated⟩

/-- The first attempt adds the IPv4 address and is kept from adding the IPv6 one. -/
def blockedAdd : List Faults := [{ blocked := [(.add, "ns1.pol1.ingress.0_v6")] }]

theorem retry_converges_blocked_add :
    let (reached, before) := Event.run Rule.Action.apply [.act (.work .ensure)] (dualRule, {})
    let adding := Rule.Operation.addPods [mappedPod]
    dualRule.peers = none ∧ (adding.apply reached (before.withFaults {})).answer = .ok () ∧
    (retry adding.apply blockedAdd reached before).answer = .ok () ∧
    (retry adding.apply blockedAdd reached before).state =
      (adding.apply reached (before.withFaults {})).state ∧
    (retry adding.apply blockedAdd reached before).store.journal.map
        (fun entry => (entry.call.set, entry.error.isSome)) =
      [("ns1.pol1.ingress.0_v6", false), ("ns1.pol1.ingress.0_v6", true),
        ("ns1.pol1.ingress.0_v4", false), ("ns1.pol1.ingress.0_v6", false),
        ("ns1.pol1.ingress.0_v4", false)] := by
  have succeeds : ((Rule.Operation.addPods [mappedPod]).apply
      (Event.run Rule.Action.apply [.act (.work .ensure)] (dualRule, {})).1
      ((Event.run Rule.Action.apply [.act (.work .ensure)] (dualRule, {})).2.withFaults {})).answer =
        .ok () := by
    decide +kernel
  obtain ⟨answer, state, -⟩ := retry_converges dualRule {} rfl [.act (.work .ensure)]
    (.addPods [mappedPod]) blockedAdd succeeds
  exact ⟨rfl, succeeds, answer, state, by decide +kernel⟩

end PolicyAcl
