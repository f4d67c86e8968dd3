import PolicyAcl.Proofs.PortConversion

/-! Rules that are converted from a manifest, compared with rules that are built by hand: the
ports are added one after another and then the blocks of the peers, and nothing is built from
a port list with a fault in it. -/
namespace PolicyAcl

/-- Except one more network from a block. -/
def Block.addExcept (block : Block) (network : String) : Block :=
  { block with excepts := block.excepts ++ [network] }

theorem Block.foldl_addExcept (excepts : List String) (block : Block) :
    excepts.foldl addExcept block = { block with excepts := block.excepts ++ excepts } := by
  induction excepts generalizing block with
  | nil => simp
  | cons network excepts ih => simp [ih, addExcept]

theorem Rule.foldl_addPort (policies : List PortPolicy) (rule : Rule) :
    policies.foldl addPort rule = { rule with ports := rule.ports ++ policies } := by
  induction policies generalizing rule with
  | nil => simp
  | cons policy policies ih => simp [ih, addPort]

namespace Manifest

/-- The block of a network, with its excepted networks added in their order. -/
def Block.build (block : Block) : PolicyAcl.Block :=
  (block.excepts.getD []).foldl PolicyAcl.Block.addExcept ⟨block.network, []⟩

/-- Add the block of a peer to a rule. A peer without a block adds nothing. -/
def Peer.addTo (rule : PolicyAcl.Rule) (peer : Peer) : PolicyAcl.Rule :=
  match peer.block with
  | some block => rule.addBlock block.build
  | none => rule

/-- A new rule, to which port policies are added and then the blocks of peers. -/
def buildRule (id : RuleId) (families : Families) (policies : List PortPolicy)
    (peers : List Peer) : PolicyAcl.Rule :=
  peers.foldl Peer.addTo (policies.foldl PolicyAcl.Rule.addPort { id, families })

theorem Block.build_eq_convert (block : Block) : block.build = block.convert := by
  rw [build, PolicyAcl.Block.foldl_addExcept]
  rfl

theorem foldl_addTo (peers : List Peer) (rule : PolicyAcl.Rule) :
    peers.foldl Peer.addTo rule = { rule with blocks := rule.blocks ++ convertPeers peers } := by
  induction peers generalizing rule with
  | nil => simp [convertPeers]
  | cons peer peers ih =>
      rw [List.foldl_cons, ih, Peer.addTo]
      cases given : peer.block with
      | none => simp [convertPeers, given]
      | some block =>
          simp [convertPeers, given, PolicyAcl.Rule.addBlock, block.build_eq_convert]

theorem buildRule_eq (id : RuleId) (families : Families) (policies : List PortPolicy)
    (peers : List Peer) :
    buildRule id families policies peers =
      { id, families, ports := policies, blocks := convertPeers peers } := by
  rw [buildRule, foldl_addTo, PolicyAcl.Rule.foldl_addPort]
  rfl

/-- The entries of a port list with the policies they convert to. -/
def ConvertAll (entries : List Port) (policies : List PortPolicy) : Prop :=
  List.Forall₂ (fun entry policy => entry.convert = .ok policy) entries policies

/-- The first entry of a port list that does not convert has this fault. -/
def FirstFault (entries : List Port) (fault : Fault) : Prop :=
  ∃ before entry after, entries = before ++ entry :: after ∧
    (∀ earlier ∈ before, ∃ policy, earlier.convert = .ok policy) ∧ entry.convert = .error fault

theorem convertPorts_eq_mapM (entries : List Port) : convertPorts entries = entries.mapM Port.convert := by
  induction entries with
  | nil => rfl
  | cons entry entries ih =>
      rw [convertPorts, List.mapM_cons, ih]

theorem convertPorts_eq_ok {entries : List Port} {policies : List PortPolicy} :
    convertPorts entries = .ok policies ↔ ConvertAll entries policies := by
  rw [convertPorts_eq_mapM, mapM_eq_ok]
  rfl

theorem convertPorts_eq_error {entries : List Port} {fault : Fault} :
    convertPorts entries = .error fault ↔ FirstFault entries fault := by
  rw [convertPorts_eq_mapM, mapM_eq_error]
  rfl

theorem Rule.convert_eq_build (manifest : Rule) (id : RuleId) (families : Families) :
    manifest.convert id families =
      (convertPorts (manifest.ports.getD [])).map fun policies =>
        buildRule id families policies (manifest.peers.getD []) := by
  simp only [convert, buildRule_eq]
  cases convertPorts (manifest.ports.getD []) <;> rfl

theorem convertPeers_eq (peers : List Peer) :
    convertPeers peers = (peers.filterMap Peer.block).map Block.convert := by
  rw [List.map_filterMap]
  rfl

/-- Manifests with these ports and peers convert to the rules that are built from them by hand,
and if a port does not convert, the first such port is what is wrong. Of the peers nothing but
their blocks makes a difference. -/
structure BuiltByHand {α : Type} (ports : α → Option (List Port)) (peers : α → Option (List Peer))
    (id : RuleId) (families : Families) (convert : α → Except Fault PolicyAcl.Rule) : Prop where
  built : ∀ manifest rule, convert manifest = .ok rule ↔
    ∃ policies, ConvertAll ((ports manifest).getD []) policies ∧
      rule = buildRule id families policies ((peers manifest).getD [])
  faulty : ∀ manifest fault, convert manifest = .error fault ↔
    FirstFault ((ports manifest).getD []) fault
  blocks : ∀ manifest other, (ports other).getD [] = (ports manifest).getD [] →
    ((peers other).getD []).filterMap Peer.block = ((peers manifest).getD []).filterMap Peer.block →
    convert other = convert manifest

theorem Rule.builtByHand (id : RuleId) (families : Families) :
    BuiltByHand Rule.ports Rule.peers id families fun manifest => manifest.convert id families where
  built := by
    intro manifest rule
    rw [manifest.convert_eq_build]
    constructor
    · intro converted
      cases listed : convertPorts (manifest.ports.getD []) with
      | error fault =>
          rw [listed] at converted
          cases converted
      | ok policies =>
          rw [listed] at converted
          exact ⟨policies, convertPorts_eq_ok.mp listed, (Except.ok.inj converted).symm⟩
    · rintro ⟨policies, all, rfl⟩
      rw [convertPorts_eq_ok.mpr all]
      rfl
  faulty := by
    intro manifest fault
    rw [manifest.convert_eq_build, ← convertPorts_eq_error]
    cases convertPorts (manifest.ports.getD []) <;> simp [Except.map]
  blocks := by
    intro manifest other ports blocks
    simp only [Rule.convert_eq_build, buildRule_eq, convertPeers_eq, ports, blocks]

/-- What is built by hand from the parts of a manifest is built by hand from the manifest. -/
theorem BuiltByHand.comp {α β : Type} {ports : β → Option (List Port)}
    {peers : β → Option (List Peer)} {id : RuleId} {families : Families}
    {convert : β → Except Fault PolicyAcl.Rule} (h : BuiltByHand ports peers id families convert)
    (parts : α → β) :
    BuiltByHand (ports ∘ parts) (peers ∘ parts) id families (convert ∘ parts) where
  built manifest := h.built (parts manifest)
  faulty manifest := h.faulty (parts manifest)
  blocks manifest other := h.blocks (parts manifest) (parts other)

/-- Ingress and egress rules convert alike, each for its own direction and with the peers that
its traffic comes from or goes to. -/
theorem converted_rule_is_built_by_hand (families : Families) :
    (∀ id, BuiltByHand Rule.ports Rule.peers id families
      fun manifest => manifest.convert id families) ∧
    ∀ index ns policy,
      BuiltByHand IngressRule.ports IngressRule.sources ⟨.ingress, index, ns, policy⟩ families
        (fun manifest => manifest.convert index ns policy families) ∧
      BuiltByHand EgressRule.ports EgressRule.destinations ⟨.egress, index, ns, policy⟩ families
        fun manifest => manifest.convert index ns policy families := by
  refine ⟨fun id => Rule.builtByHand id families, fun index ns policy => ⟨?_, ?_⟩⟩
  · exact (Rule.builtByHand ⟨.ingress, index, ns, policy⟩ families).comp
      fun manifest : IngressRule => ⟨manifest.ports, manifest.sources⟩
  · exact (Rule.builtByHand ⟨.egress, index, ns, policy⟩ families).comp
      fun manifest : EgressRule => ⟨manifest.ports, manifest.destinations⟩

/-- A rule with a port by default protocol and a range, and with a block, selectors and both. -/
def mixedRule : EgressRule :=
  { ports := some [{ port := some (.number 80) },
      { protocol := some "udp", port := some (.number 8000), endPort := some 8010 }]
    destinations := some [{ block := some ⟨"10.0.0.0/8", some ["10.2.0.0/16", "10.1.0.0/16"]⟩ },
      { podSelector := true },
      { block := some ⟨"fd00::/8", none⟩, namespaceSelector := true }] }

/-- The second port has a name, and the third one is out of range. -/
def namedRule : IngressRule :=
  { ports := some [{ port := some (.number 80) },
      { protocol := some "SCTP", port := some (.name "web") }, { port := some (.number 70000) }]
    sources := mixedRule.destinations }

theorem converted_rule_is_built_by_hand_mixed :
    let id : RuleId := ⟨.egress, 7, "ns1", "pol1"⟩
    let bare : EgressRule := { mixedRule with
      destinations := some [{ block := some ⟨"10.0.0.0/8", some ["10.2.0.0/16", "10.1.0.0/16"]⟩ },
        { block := some ⟨"fd00::/8", none⟩ }] }
    mixedRule.convert 7 "ns1" "pol1" .dualStack = .ok
      (({ id, families := .dualStack } : PolicyAcl.Rule)
        |>.addPort ⟨"TCP", 80, 0⟩ |>.addPort ⟨"udp", 8000, 8010⟩
        |>.addBlock ⟨"10.0.0.0/8", ["10.2.0.0/16", "10.1.0.0/16"]⟩ |>.addBlock ⟨"fd00::/8", []⟩) ∧
    bare.ports.getD [] = mixedRule.ports.getD [] ∧
    (bare.destinations.getD []).filterMap Peer.block =
      (mixedRule.destinations.getD []).filterMap Peer.block ∧
    bare.convert 7 "ns1" "pol1" .dualStack = mixedRule.convert 7 "ns1" "pol1" .dualStack ∧
    namedRule.convert 0 "ns1" "pol1" .dualStack = .error (.namedPort "SCTP" "web") ∧
    Rule.convert ⟨namedRule.ports, none⟩ id .dualStack = .error (.namedPort "SCTP" "web") := by
  intro id bare
  have ports : bare.ports.getD [] = mixedRule.ports.getD [] := rfl
  have blocks : (bare.destinations.getD []).filterMap Peer.block =
      (mixedRule.destinations.getD []).filterMap Peer.block := rfl
  have named : FirstFault (namedRule.ports.getD []) (.namedPort "SCTP" "web") := by
    refine ⟨[{ port := some (.number 80) }], _, [{ port := some (.number 70000) }], rfl, ?_, by decide⟩
    exact List.forall_mem_singleton.mpr ⟨⟨"TCP", 80, 0⟩, by decide +kernel⟩
  obtain ⟨shared, members⟩ := converted_rule_is_built_by_hand .dualStack
  have egress := (members 7 "ns1" "pol1").2
  have ingress := (members 0 "ns1" "pol1").1
  refine ⟨(egress.built mixedRule _).mpr ⟨[⟨"TCP", 80, 0⟩, ⟨"udp", 8000, 8010⟩], ?_, rfl⟩, ports,
    blocks, egress.blocks mixedRule bare ports blocks, (ingress.faulty namedRule _).mpr named,
    ((shared id).faulty ⟨namedRule.ports, none⟩ _).mpr named⟩
  exact .cons (by decide +kernel) (.cons (by decide +kernel) .nil)

end Manifest

end PolicyAcl
