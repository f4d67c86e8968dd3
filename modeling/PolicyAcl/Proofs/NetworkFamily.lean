import PolicyAcl.Proofs.AddressText
import PolicyAcl.Proofs.Refinement
import PolicyAcl.Proofs.Trail

/-! A network is taken to be of the family that its address is of. The text of a network is
only looked through for a colon, and what follows the address in it has none. -/
namespace PolicyAcl

/-- A block is matched with the token of the family of its address, and the set to which the
address is added as a peer has the suffix of the same family. -/
theorem network_has_family_of_its_address {text rest : String} {address : Address}
    (spelled : Address.ofText? text = some address) (bare : ':' ∉ rest.toList) :
    Family.ofNetwork (text ++ rest) = address.family ∧
    (∀ excepts, Block.comparisons ⟨text ++ rest, excepts⟩ =
      (address.family.token ++ ".src" ++ " == " ++ (text ++ rest)) ::
        if excepts = [] then []
        else [address.family.token ++ ".src" ++ " != " ++ braced (",".intercalate excepts)]) ∧
    ∀ (peers : PeerSet) (pod : PodKey) (store : Store), peers.backing.Named peers.name →
      address ∉ peers.owners → peers.backing.handle? address.family ≠ none →
      ∃ entry, (peers.addOwner address pod store).store.journal = entry :: store.journal ∧
        entry.call = .add ((Family.ofNetwork (text ++ rest)).setName peers.name) [address] := by
  have same : Family.ofNetwork (text ++ rest) = address.family := by
    have colon := Address.colon_mem_iff spelled
    rw [Family.ofNetwork, String.toList_append]
    cases family : address.family with
    | v4 =>
        rw [family] at colon
        rw [if_neg]
        simp [colon, bare]
    | v6 =>
        rw [if_pos]
        exact List.mem_append_left _ (colon.mpr family)
  refine ⟨same, ?_, ?_⟩
  · intro excepts
    rw [Block.comparisons, Block.field, Block.family, same]
  · intro peers pod store named unowned backed
    obtain ⟨set, handle⟩ := Option.ne_none_iff_exists'.mp backed
    rw [PeerSet.addOwner_eq, Intent.carryOut_journal,
      PeerSet.addPlan_first (Std.ExtTreeMap.getElem?_eq_none unowned) handle, same,
      ← named address.family set handle]
    exact ⟨_, rfl, rfl⟩

theorem network_has_family_of_its_address_mapped :
    let address := Address.v6 ⟨0, 0, 0, 0, 0, 0xffff, 0x0a00, 0x0001⟩
    Address.ofText? "::ffff:10.0.0.1" = some address ∧ ':' ∉ "/128".toList ∧
    Family.ofNetwork ("::ffff:10.0.0.1" ++ "/128") = .v6 ∧
    Block.comparisons ⟨"::ffff:10.0.0.1/128", []⟩ = ["ip6.src == ::ffff:10.0.0.1/128"] ∧
    ∃ entry, (backedPeers.addOwner address ⟨"ns1", "pod1"⟩ backedStore).store.journal = [entry] ∧
      entry.call = .add "ns1_v6" [address] := by
  intro address
  have spelled : Address.ofText? "::ffff:10.0.0.1" = some address := by decide +kernel
  have bare : ':' ∉ "/128".toList := by decide
  have named : backedPeers.backing.Named backedPeers.name := by
    intro family set handle
    cases family <;> exact (Option.some.inj handle).symm
  have unowned : address ∉ backedPeers.owners := by decide +kernel
  obtain ⟨family, comparisons, added⟩ := network_has_family_of_its_address spelled bare
  exact ⟨spelled, bare, family, comparisons [], added _ _ _ named unowned (by decide)⟩

end PolicyAcl
