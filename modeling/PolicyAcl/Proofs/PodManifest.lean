import Mathlib.Logic.Relation
import PolicyAcl.Manifest.Conversion
import PolicyAcl.Proofs.AddressText
import PolicyAcl.Proofs.FirstSeen

/-! Pods that are converted from the objects they are written into. The addresses are told
apart by what their texts spell, so another spelling makes no difference, nor does a further
one behind the first. -/
namespace PolicyAcl

namespace Manifest

def SameAddress (text other : String) : Prop :=
  ∃ address, Address.ofText? text = some address ∧ Address.ofText? other = some address

/-- One change to the address texts of a pod: a text is spelled in another way, or another
spelling of it is put in somewhere behind it. -/
inductive Reworded : List String → List String → Prop
  | respelled (before after : List String) {text other : String} : SameAddress text other →
      Reworded (before ++ text :: after) (before ++ other :: after)
  | repeated (before between after : List String) {text other : String} : SameAddress text other →
      Reworded (before ++ text :: between ++ after) (before ++ text :: between ++ other :: after)

theorem convertAddresses_append (texts others : List String) :
    convertAddresses (texts ++ others) =
      (convertAddresses texts).bind fun front =>
        (convertAddresses others).map fun back => front ++ back := by
  induction texts with
  | nil =>
      rw [List.nil_append, convertAddresses]
      cases convertAddresses others <;> rfl
  | cons text texts ih =>
      rw [List.cons_append, convertAddresses, convertAddresses]
      cases Address.ofText? text with
      | none => rfl
      | some address =>
          simp only [ih]
          cases convertAddresses texts with
          | error fault => rfl
          | ok front => cases convertAddresses others <;> rfl

theorem convertAddresses_spelled {text : String} {address : Address}
    (spelled : Address.ofText? text = some address) (texts : List String) :
    convertAddresses (text :: texts) = (convertAddresses texts).map (address :: ·) := by
  rw [convertAddresses, spelled]
  cases convertAddresses texts <;> rfl

theorem convertAddresses_text (addresses : List Address) :
    convertAddresses (addresses.map Address.text) = .ok addresses := by
  induction addresses with
  | nil => rfl
  | cons address addresses ih =>
      rw [List.map_cons, convertAddresses_spelled address.ofText?_text, ih]
      rfl

theorem Reworded.convertAddresses {texts others : List String} (reworded : Reworded texts others) :
    (convertAddresses others).map List.eraseDups = (convertAddresses texts).map List.eraseDups := by
  cases reworded with
  | respelled before after same =>
      obtain ⟨address, first, second⟩ := same
      rw [convertAddresses_append, convertAddresses_append, convertAddresses_spelled first,
        convertAddresses_spelled second]
  | @repeated before between after text other same =>
      obtain ⟨address, first, second⟩ := same
      rw [convertAddresses_append, convertAddresses_append (before ++ text :: between),
        convertAddresses_append, convertAddresses_spelled first, convertAddresses_spelled second]
      cases Manifest.convertAddresses before with
      | error fault => rfl
      | ok front =>
          cases Manifest.convertAddresses between with
          | error fault => rfl
          | ok middle =>
              cases Manifest.convertAddresses after with
              | error fault => rfl
              | ok back =>
                  have seen : address ∈ front ++ address :: middle := by simp
                  exact congrArg Except.ok (eraseDups_seen seen back)

theorem Reworded.addressTexts {texts others : List String} (reworded : Reworded texts others)
    (single : Option String) :
    PodStatus.addressTexts ⟨single, some texts⟩ = texts ∧
      PodStatus.addressTexts ⟨single, some others⟩ = others := by
  cases reworded with
  | respelled before => cases before <;> exact ⟨rfl, rfl⟩
  | repeated before => cases before <;> exact ⟨rfl, rfl⟩

theorem Pod.convert_eq (ns name : String) (status : PodStatus) :
    Pod.convert ⟨some ns, some name, some status⟩ =
      ((convertAddresses status.addressTexts).map List.eraseDups).map
        (PolicyAcl.Pod.ofAddresses ⟨ns, name⟩) := by
  simp only [Pod.convert]
  cases convertAddresses status.addressTexts with
  | error fault => rfl
  | ok addresses => exact congrArg Except.ok (Pod.ofAddresses_eraseDups ⟨ns, name⟩ addresses).symm

/-- A pod converts as before, or fails as before. -/
theorem Reworded.convert {texts others : List String} (reworded : Reworded texts others)
    (ns name single : Option String) :
    Pod.convert ⟨ns, name, some ⟨single, some others⟩⟩ =
      Pod.convert ⟨ns, name, some ⟨single, some texts⟩⟩ := by
  cases ns with
  | none => rfl
  | some ns =>
      cases name with
      | none => rfl
      | some name =>
          obtain ⟨before, after⟩ := reworded.addressTexts single
          rw [Pod.convert_eq, Pod.convert_eq, before, after, reworded.convertAddresses]

theorem addressTexts_of_listed {texts : List String} {status : PodStatus}
    (listed : status.podIPs.getD [] = texts) (absent : texts = [] → status.podIP = none) :
    status.addressTexts = texts := by
  obtain ⟨single, list⟩ := status
  cases list with
  | none =>
      obtain rfl : single = none := absent listed.symm
      exact listed
  | some list =>
      cases list with
      | nil =>
          obtain rfl : single = none := absent listed.symm
          exact listed
      | cons text list => exact listed

end Manifest

/-- A pod converts from the texts of its addresses to what it was, however they are spelled
and whatever spellings of them are repeated. The single address is only looked at if there
are no others. -/
theorem pod_survives_manifest (pod : Pod) (status : Manifest.PodStatus)
    (listed : status.podIPs.getD [] = pod.addresses.map Address.text)
    (absent : pod.addresses = [] → status.podIP = none) :
    Manifest.Pod.convert ⟨some pod.key.ns, some pod.key.name, some status⟩ = .ok pod ∧
    ∀ texts, Relation.ReflTransGen Manifest.Reworded (pod.addresses.map Address.text) texts →
      Manifest.Pod.convert ⟨some pod.key.ns, some pod.key.name,
        some { status with podIPs := some texts }⟩ = .ok pod := by
  have converted : ∀ status : Manifest.PodStatus,
      status.addressTexts = pod.addresses.map Address.text →
      Manifest.Pod.convert ⟨some pod.key.ns, some pod.key.name, some status⟩ = .ok pod := by
    intro status read
    rw [Manifest.Pod.convert_eq, read, Manifest.convertAddresses_text]
    refine congrArg Except.ok ?_
    rw [Pod.ofAddresses_eraseDups, pod.ofAddresses_addresses]
  have none : pod.addresses.map Address.text = [] → status.podIP = none := by simpa using absent
  refine ⟨converted status (Manifest.addressTexts_of_listed listed none), fun texts reworded => ?_⟩
  induction reworded with
  | refl => exact converted _ (Manifest.addressTexts_of_listed rfl none)
  | tail _ step ih => exact (step.convert _ _ _).trans ih

/-- A mapped address, the address of all zeros and an IPv4 address. -/
def mixedPod : Pod :=
  ⟨⟨"ns1", "pod1"⟩, [.v6 ⟨0, 0, 0, 0, 0, 0xffff, 0x0a00, 0x0001⟩, .v6 ⟨0, 0, 0, 0, 0, 0, 0, 0⟩,
    .v4 ⟨10, 0, 0, 1⟩], by decide⟩

def mixedStatus : Manifest.PodStatus :=
  { podIP := some "fd00::9", podIPs := some ["::ffff:10.0.0.1", "::", "10.0.0.1"] }

theorem pod_survives_manifest_mixed :
    mixedStatus.podIPs.getD [] = mixedPod.addresses.map Address.text ∧
    (mixedPod.addresses = [] → mixedStatus.podIP = none) ∧
    Manifest.Pod.convert ⟨some "ns1", some "pod1", some mixedStatus⟩ = .ok mixedPod ∧
    Manifest.Pod.convert ⟨some "ns1", some "pod1", some { mixedStatus with
      podIPs := some ["::ffff:10.0.0.1", "0:0::0.0.0.0", "10.0.0.1", "::FFFF:a00:1"] }⟩ =
        .ok mixedPod := by
  have listed : mixedStatus.podIPs.getD [] = mixedPod.addresses.map Address.text := by
    decide +kernel
  have absent : mixedPod.addresses = [] → mixedStatus.podIP = none := by simp [mixedPod]
  have zeros : Manifest.SameAddress "::" "0:0::0.0.0.0" :=
    ⟨.v6 ⟨0, 0, 0, 0, 0, 0, 0, 0⟩, by decide +kernel, by decide +kernel⟩
  have mapped : Manifest.SameAddress "::ffff:10.0.0.1" "::FFFF:a00:1" :=
    ⟨.v6 ⟨0, 0, 0, 0, 0, 0xffff, 0x0a00, 0x0001⟩, by decide +kernel, by decide +kernel⟩
  have respelled : Manifest.Reworded ["::ffff:10.0.0.1", "::", "10.0.0.1"]
      ["::ffff:10.0.0.1", "0:0::0.0.0.0", "10.0.0.1"] :=
    .respelled ["::ffff:10.0.0.1"] ["10.0.0.1"] zeros
  have repeated : Manifest.Reworded ["::ffff:10.0.0.1", "0:0::0.0.0.0", "10.0.0.1"]
      ["::ffff:10.0.0.1", "0:0::0.0.0.0", "10.0.0.1", "::FFFF:a00:1"] :=
    .repeated [] ["0:0::0.0.0.0", "10.0.0.1"] [] mapped
  obtain ⟨converted, reworded⟩ := pod_survives_manifest mixedPod mixedStatus listed absent
  refine ⟨listed, absent, converted, reworded _ ?_⟩
  rw [← listed]
  exact (Relation.ReflTransGen.single respelled).tail repeated

end PolicyAcl
