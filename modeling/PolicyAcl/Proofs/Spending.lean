import PolicyAcl.Proofs.Coherence

/-! The calls that are made on the way through an operation. A call that changed the
store is spent: no plan comes back to it, in this attempt or in a later one. -/
namespace PolicyAcl

open Store (Call Contents Entry)

/-- The later call is not a repetition of an earlier one that changed the store. A set
may be ensured more than once. -/
def Store.Entry.Unrepeated (later earlier : Entry) : Prop :=
  earlier.error = none → earlier.call.op ≠ .ensure → later.call ≠ earlier.call

/-- What calls are made on the way from one state to another, the latest first. A call
that is spent is not made any more, and a call that changed the store is spent. -/
structure Advance {σ : Type} (Spent : Call → σ → Prop) (state next : σ) (entries : List Entry) :
    Prop where
  unrepeated : entries.Pairwise Entry.Unrepeated
  fresh : ∀ entry ∈ entries, ¬Spent entry.call state
  spent : ∀ entry ∈ entries, entry.error = none → entry.call.op ≠ .ensure → Spent entry.call next
  kept : ∀ call, Spent call state → Spent call next

namespace Advance

variable {σ : Type} {Spent : Call → σ → Prop} {state middle next : σ} {first second : List Entry}

theorem quiet (kept : ∀ call, Spent call state → Spent call next) : Advance Spent state next [] :=
  ⟨.nil, by simp, by simp, kept⟩

theorem refl (state : σ) : Advance Spent state state [] := quiet fun _ spent => spent

theorem trans (before : Advance Spent state middle first) (after : Advance Spent middle next second) :
    Advance Spent state next (second ++ first) where
  unrepeated := by
    refine List.pairwise_append.mpr ⟨after.unrepeated, before.unrepeated, ?_⟩
    intro later second earlier first succeeded changing same
    have spent := before.spent earlier first succeeded changing
    rw [← same] at spent
    exact after.fresh later second spent
  fresh entry member spent := by
    rcases List.mem_append.mp member with second | first
    · exact after.fresh entry second (before.kept entry.call spent)
    · exact before.fresh entry first spent
  spent entry member succeeded changing := by
    rcases List.mem_append.mp member with second | first
    · exact after.spent entry second succeeded changing
    · exact after.kept entry.call (before.spent entry first succeeded changing)
  kept call spent := after.kept call (before.kept call spent)

theorem single {entry : Entry} (fresh : ¬Spent entry.call state)
    (spent : entry.error = none → entry.call.op ≠ .ensure → Spent entry.call next)
    (kept : ∀ call, Spent call state → Spent call next) : Advance Spent state next [entry] where
  unrepeated := List.pairwise_singleton ..
  fresh other member := by
    rw [List.mem_singleton.mp member]
    exact fresh
  spent other member := by
    rw [List.mem_singleton.mp member]
    exact spent
  kept := kept

end Advance

/-- Work that makes no spent calls, in the states of an invariant that it keeps. -/
def Frugal {σ : Type} (work : σ → Store → Outcome σ Unit) (Inv : σ → Prop)
    (Spent : Call → σ → Prop) : Prop :=
  ∀ state store, Inv state → Inv (work state store).state ∧
    ∃ entries, (work state store).store.journal = entries ++ store.journal ∧
      Advance Spent state (work state store).state entries

/-- How a plan spends its calls, in the states of an invariant that it keeps. -/
structure Spending {σ α : Type} (plan : α → σ → Intent σ) (Inv : σ → Prop)
    (Spent : Call → σ → Prop) : Prop where
  stable : ∀ item state contents next after, Inv state →
    (plan item state).perform contents = .ok (next, after) →
    Inv next ∧ ∀ call, Spent call state → Spent call next
  fresh : ∀ item state call next complain, Inv state →
    plan item state = .submit call next complain → ¬Spent call state
  spends : ∀ item state call next complain, Inv state →
    plan item state = .submit call next complain → call.op ≠ .ensure → Spent call next

namespace Spending

variable {σ α : Type} {plan : α → σ → Intent σ} {Inv : σ → Prop} {Spent : Call → σ → Prop}

theorem carryOut (spending : Spending plan Inv Spent) {item : α} {state next : σ}
    {store after : Store} {answer : Except PeerError Bool} (inv : Inv state)
    (h : (plan item state).carryOut state store = ⟨answer, next, after⟩) :
    Inv next ∧ ∃ entries, after.journal = entries ++ store.journal ∧
      Advance Spent state next entries := by
  cases planned : plan item state with
  | quiet calm =>
      rw [planned] at h
      cases h
      have performed : (plan item state).perform store.contents = .ok (next, store.contents) := by
        rw [planned, Intent.perform]
      obtain ⟨kept, spent⟩ := spending.stable _ _ _ _ _ inv performed
      exact ⟨kept, [], rfl, .quiet spent⟩
  | refuse error =>
      rw [planned] at h
      cases h
      exact ⟨inv, [], rfl, .refl _⟩
  | submit call target complain =>
      have fresh := spending.fresh _ _ _ _ _ inv planned
      rw [planned] at h
      cases answered : store.answer call with
      | ok contents =>
          rw [Intent.carryOut_of_ok state answered] at h
          cases h
          have performed : (plan item state).perform store.contents = .ok (next, contents) := by
            rw [planned]
            exact Intent.perform_submit.mpr ⟨rfl, Store.answer_ok_perform answered⟩
          obtain ⟨kept, spent⟩ := spending.stable _ _ _ _ _ inv performed
          refine ⟨kept, [_], rfl, .single fresh (fun _ changing => ?_) spent⟩
          exact spending.spends _ _ _ _ _ inv planned changing
      | error cause =>
          rw [Intent.carryOut_of_error state answered] at h
          cases h
          refine ⟨inv, [_], rfl, .single fresh (fun succeeded => ?_) fun _ spent => spent⟩
          cases succeeded

theorem each (spending : Spending plan Inv Spent) (items : List α) :
    Frugal (Intent.each plan items) Inv Spent := by
  intro state store inv
  induction items generalizing state store with
  | nil => exact ⟨inv, [], rfl, .refl state⟩
  | cons item items ih =>
      rw [Intent.each]
      split
      next next after carried =>
        obtain ⟨kept, first, called, before⟩ := spending.carryOut inv carried
        obtain ⟨ended, second, calledToo, rest⟩ := ih next after kept
        refine ⟨ended, second ++ first, ?_, before.trans rest⟩
        rw [calledToo, called, List.append_assoc]
      next error next after carried =>
        exact spending.carryOut inv carried

end Spending

/-- No two families have the same backing set. -/
def Backing.Distinct (backing : Backing) : Prop :=
  ∀ family other set, backing.handle? family = some set → backing.handle? other = some set →
    family = other

theorem Backing.Named.distinct {base : String} {backing : Backing} (named : backing.Named base) :
    backing.Distinct := fun family other set backed backed' =>
  (Family.setName_inj.mp ((named family set backed).symm.trans (named other set backed'))).1

namespace PeerSet

/-- The address is in the peer set already. -/
def AddSpent (call : Call) (peers : PeerSet) : Prop :=
  ∃ set address, call = .add set [address] ∧ address ∈ peers.owners

/-- The address is no longer in the peer set. -/
def RemoveSpent (call : Call) (peers : PeerSet) : Prop :=
  ∃ set address, call = .delete set [address] ∧ address ∉ peers.owners

/-- No family has the set as its backing set any more. -/
def DestroySpent (call : Call) (peers : PeerSet) : Prop :=
  ∃ set, call = .destroy set ∧ ∀ family, peers.backing.handle? family ≠ some set

theorem addPlan_spending (base : String) : Spending addPlan (fun peers => peers.backing.Named base) AddSpent where
  stable := by
    rintro ⟨address, pod⟩ peers contents next after named performed
    rw [addPlan_backing performed]
    refine ⟨named, ?_⟩
    rintro call ⟨set, other, rfl, member⟩
    obtain ⟨owner, owns⟩ := mem_owners_iff.mp member
    refine ⟨set, other, rfl, mem_owners_iff.mpr ⟨owner, ?_⟩⟩
    rw [← mem_ownership, addPlan_ownership performed]
    exact Set.mem_insert_of_mem _ owns
  fresh := by
    rintro ⟨address, pod⟩ peers call next complain - planned ⟨set, other, same, member⟩
    -- The store is called for a new address only.
    obtain ⟨_, missing, -, rfl, -⟩ := addPlan_submit planned
    cases same
    rw [Std.ExtTreeMap.mem_iff_isSome_getElem?, missing] at member
    cases member
  spends := by
    rintro ⟨address, pod⟩ peers call next complain - planned -
    obtain ⟨set, -, -, rfl, -, rfl⟩ := addPlan_submit planned
    exact ⟨set, address, rfl, by simp⟩

theorem removePlan_spending (base : String) (pod : PodKey) :
    Spending (removePlan pod) (fun peers => peers.backing.Named base) RemoveSpent where
  stable := by
    rintro address peers contents next after named performed
    rw [removePlan_backing performed]
    refine ⟨named, ?_⟩
    rintro call ⟨set, other, rfl, gone⟩
    refine ⟨set, other, rfl, fun member => gone ?_⟩
    obtain ⟨owner, owns⟩ := mem_owners_iff.mp member
    rw [← mem_ownership, removePlan_ownership performed] at owns
    exact mem_owners_iff.mpr ⟨owner, owns.1⟩
  fresh := by
    rintro address peers call next complain - planned ⟨set, other, same, gone⟩
    obtain ⟨owners, _, found, -, -, rfl, -⟩ := removePlan_submit planned
    cases same
    exact gone (mem_of_found found)
  spends := by
    rintro address peers call next complain - planned -
    obtain ⟨owners, set, -, -, -, rfl, -, rfl⟩ := removePlan_submit planned
    exact ⟨set, address, rfl, by simp⟩

/-- Destroying spends its calls as long as no two families have one backing set. -/
theorem destroyPlan_spending {Inv : PeerSet → Prop}
    (distinct : ∀ peers, Inv peers → peers.backing.Distinct)
    (kept : ∀ peers next, Inv peers →
      (∀ family set, next.backing.handle? family = some set →
        peers.backing.handle? family = some set) → Inv next) :
    Spending destroyPlan Inv DestroySpent where
  stable := by
    rintro family peers contents next after inv performed
    refine ⟨kept peers next inv fun _ _ backed => destroyPlan_handles performed backed, ?_⟩
    rintro call ⟨set, rfl, gone⟩
    exact ⟨set, rfl, fun other backed => gone other (destroyPlan_handles performed backed)⟩
  fresh := by
    rintro family peers call next complain - planned ⟨set, same, gone⟩
    obtain ⟨_, backed, rfl, -⟩ := destroyPlan_submit planned
    cases same
    exact gone family backed
  spends := by
    rintro family peers call next complain inv planned -
    obtain ⟨set, backed, rfl, -, rfl⟩ := destroyPlan_submit planned
    refine ⟨set, rfl, fun other again => ?_⟩
    rw [Backing.handle?_forget] at again
    split at again
    · cases again
    · next different => exact different (distinct peers inv other family set again backed)

theorem destroy_frugal (base : String) :
    Frugal PeerSet.destroy (fun peers => peers.backing.Named base) DestroySpent := by
  intro peers store named
  have spending : Spending destroyPlan (fun peers => peers.backing.Named base) DestroySpent :=
    destroyPlan_spending (fun _ named => named.distinct) fun _ _ named handles family set backed =>
      named family set (handles family set backed)
  rw [destroy_eq]
  exact spending.each [.v4, .v6] peers store named

theorem removeAll_frugal (base : String) (pod : PodKey) :
    Frugal (PeerSet.removeAll pod) (fun peers => peers.backing.Named base) RemoveSpent := by
  intro peers store named
  rw [PeerSet.removeAll, removeEach_eq]
  exact (removePlan_spending base pod).each _ peers store named

theorem ensurePlan_spending (name : String) :
    Spending (ensurePlan name) (Backing.Named name) fun _ _ => False where
  stable := by
    intro family backing contents next after named performed
    refine ⟨fun other set handle => ?_, fun _ spent => spent⟩
    rw [ensurePlan_next performed, Backing.handle?_put] at handle
    split at handle
    next same =>
      rw [same]
      exact (Option.some.inj handle).symm
    next => exact named other set handle
  fresh := fun _ _ _ _ _ _ _ spent => spent
  spends := by
    intro family backing call next complain named planned changing
    cases planned
    exact changing rfl

end PeerSet

namespace Rule

open PeerSet (AddSpent RemoveSpent DestroySpent)

def Named (rule : Rule) : Prop :=
  ∀ peers, rule.peers = some peers → peers.backing.Named rule.id.setName

def SpentOn (Spent : Call → PeerSet → Prop) (call : Call) (rule : Rule) : Prop :=
  ∀ peers, rule.peers = some peers → Spent call peers

/-- The calls that an operation does not make any more. -/
def Operation.Spent : Operation → Call → Rule → Prop
  | .ensure => fun _ _ => False
  | .addPods _ => SpentOn AddSpent
  | .deletePod _ => SpentOn RemoveSpent
  | .destroy => SpentOn DestroySpent

theorem advance_spentOn {Spent : Call → PeerSet → Prop} {peers reached : PeerSet}
    {rule next : Rule} {entries : List Entry} (some : rule.peers = some peers)
    (advance : Advance Spent peers reached entries)
    (target : ∀ other, next.peers = Option.some other → other = reached) :
    Advance (SpentOn Spent) rule next entries where
  unrepeated := advance.unrepeated
  fresh entry member spent := advance.fresh entry member (spent peers some)
  spent entry member succeeded changing other there := by
    rw [target other there]
    exact advance.spent entry member succeeded changing
  kept call spent other there := by
    rw [target other there]
    exact advance.kept call (spent peers some)

theorem onPeers_frugal {work : Families → PeerSet → Store → Outcome PeerSet Unit}
    {Spent : Call → PeerSet → Prop}
    (frugal : ∀ base families, Frugal (work families) (fun peers => peers.backing.Named base) Spent) :
    Frugal (fun rule store => Rule.onPeers (work rule.families) rule store) Named
      (SpentOn Spent) := by
  intro rule store named
  cases ended : rule.onPeers (work rule.families) store with
  | mk answer next after =>
      simp only [ended]
      rcases onPeers_cases ended with ⟨-, -, rfl, rfl⟩ | ⟨peers, reached, some, worked, rfl⟩
      · exact ⟨named, [], rfl, .refl _⟩
      · have outcome := frugal rule.id.setName rule.families peers store (named peers some)
        rw [worked] at outcome
        obtain ⟨kept, entries, called, advance⟩ := outcome
        refine ⟨fun other there => ?_, entries, called, advance_spentOn some advance ?_⟩
        · cases there
          exact kept
        · intro other there
          cases there
          rfl

theorem ensurePeers_frugal : Frugal ensurePeers Named Operation.ensure.Spent := by
  intro rule store named
  have empty : Backing.Named rule.id.setName {} := by
    intro family set handle
    cases family <;> cases handle
  have outcome := (PeerSet.ensurePlan_spending rule.id.setName).each rule.families.enabled {} store empty
  cases ended : rule.ensurePeers store with
  | mk answer next after =>
      rcases ensurePeers_cases ended with
        ⟨-, -, rfl, rfl⟩ | ⟨peers, -, -, ensured, rfl⟩ | ⟨error, -, -, failed, rfl⟩
      · exact ⟨named, [], rfl, .refl _⟩
      · obtain ⟨backing, worked, rfl⟩ := PeerSet.ensure_ok ensured
        rw [worked] at outcome
        obtain ⟨kept, entries, called, advance⟩ := outcome
        refine ⟨fun other there => ?_, entries, called, ?_⟩
        · cases there
          exact kept
        · exact ⟨advance.unrepeated, advance.fresh, advance.spent, advance.kept⟩
      · obtain ⟨backing, worked⟩ := PeerSet.ensure_error failed
        rw [worked] at outcome
        obtain ⟨-, entries, called, advance⟩ := outcome
        exact ⟨named, entries, called, advance.unrepeated, advance.fresh, advance.spent, advance.kept⟩

theorem destroy_frugal : Frugal destroy Named Operation.destroy.Spent := by
  intro rule store named
  cases ended : rule.destroy store with
  | mk answer next after =>
      rcases destroy_cases ended with
        ⟨-, -, rfl, rfl⟩ | ⟨peers, reached, some, -, worked, rfl⟩ |
          ⟨error, peers, reached, some, -, worked, rfl⟩
      · exact ⟨named, [], rfl, .refl _⟩
      · have outcome := PeerSet.destroy_frugal rule.id.setName peers store (named peers some)
        rw [worked] at outcome
        obtain ⟨-, entries, called, advance⟩ := outcome
        exact ⟨fun other there => (nomatch there), entries, called,
          advance_spentOn some advance fun other there => (nomatch there)⟩
      · have outcome := PeerSet.destroy_frugal rule.id.setName peers store (named peers some)
        rw [worked] at outcome
        obtain ⟨kept, entries, called, advance⟩ := outcome
        refine ⟨fun other there => ?_, entries, called, advance_spentOn some advance fun other there => ?_⟩
        · cases there
          exact kept
        · cases there
          rfl

theorem Operation.frugal (operation : Operation) :
    Frugal operation.apply Named operation.Spent := by
  cases operation with
  | ensure => exact ensurePeers_frugal
  | addPods pods =>
      have each (base : String) (families : Families) : Frugal (addEach families pods)
          (fun peers => peers.backing.Named base) AddSpent := by
        intro peers store named
        rw [addEach_eq]
        exact (PeerSet.addPlan_spending base).each _ peers store named
      exact onPeers_frugal each
  | deletePod pod => exact onPeers_frugal fun base _ => PeerSet.removeAll_frugal base pod.key
  | destroy => exact destroy_frugal

theorem Named.run {rule : Rule} (named : rule.Named) (events : List (Event Action)) (store : Store) :
    (Event.run Action.apply events (rule, store)).1.Named := by
  refine Event.run_preserves Action.apply (fun rule _ => rule.Named) ?_ ?_ named
  · intro action rule store named
    cases action with
    | work operation => exact (operation.frugal rule store named).1
    | edit change => cases change <;> exact named
  · intro call member rule store named
    exact named

end Rule

end PolicyAcl
