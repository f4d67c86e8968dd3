import PolicyAcl.Proofs.PodManifest
import PolicyAcl.Proofs.ManifestFaults

/-! Where the addresses of a converted pod come from, and which fault of the object it is
converted from is reported. There is one source of addresses, and no other one is looked at;
a fault of the identity is reported before any fault of an address. -/
namespace PolicyAcl

namespace Manifest

/-- A list of address texts that is absent or empty. -/
def Unlisted (texts? : Option (List String)) : Prop := texts? = none ∨ texts? = some []

/-- The texts that the addresses of a pod are taken from: those listed, else the single one,
else none. -/
inductive Source : Option PodStatus → List String → Prop
  | listed {texts : List String} (single : Option String) : texts ≠ [] →
      Source (some ⟨single, some texts⟩) texts
  | single {texts? : Option (List String)} (text : String) : Unlisted texts? →
      Source (some ⟨some text, texts?⟩) [text]
  | unlisted {texts? : Option (List String)} : Unlisted texts? → Source (some ⟨none, texts?⟩) []
  | unknown : Source none []

/-- The first text that is no address, behind texts that are addresses. -/
def FirstBad (texts : List String) (text : String) : Prop :=
  ∃ before after, texts = before ++ text :: after ∧
    (∀ earlier ∈ before, Address.ofText? earlier ≠ none) ∧ Address.ofText? text = none

/-- The addresses that texts spell, one for each text. -/
def Spelled (texts : List String) (addresses : List Address) : Prop :=
  List.Forall₂ (fun text address => Address.ofText? text = some address) texts addresses

theorem Unlisted.addressTexts {texts? : Option (List String)} (unlisted : Unlisted texts?)
    (single : Option String) : PodStatus.addressTexts ⟨single, texts?⟩ = single.toList := by
  rcases unlisted with rfl | rfl <;> rfl

theorem Source.addressTexts {status : Option PodStatus} {texts : List String}
    (source : Source status texts) : status.elim [] PodStatus.addressTexts = texts := by
  cases source with
  | listed single listed => exact addressTexts_of_listed rfl fun empty => absurd empty listed
  | single text unlisted => exact unlisted.addressTexts (some text)
  | unlisted unlisted => exact unlisted.addressTexts none
  | unknown => rfl

theorem exists_source (status : Option PodStatus) : ∃ texts, Source status texts := by
  cases status with
  | none => exact ⟨[], .unknown⟩
  | some status =>
      obtain ⟨single, texts?⟩ := status
      by_cases unlisted : Unlisted texts?
      · cases single with
        | none => exact ⟨[], .unlisted unlisted⟩
        | some text => exact ⟨[text], .single text unlisted⟩
      · simp only [Unlisted, not_or] at unlisted
        obtain ⟨texts, rfl⟩ := Option.ne_none_iff_exists'.mp unlisted.1
        exact ⟨texts, .listed single fun empty => unlisted.2 (by rw [empty])⟩

/-- The address that a text spells, or what is wrong with the text. -/
def readAddress (text : String) : Except Fault Address :=
  match Address.ofText? text with
  | some address => .ok address
  | none => .error (.badAddress text)

theorem readAddress_eq_ok {text : String} {address : Address} :
    readAddress text = .ok address ↔ Address.ofText? text = some address := by
  unfold readAddress
  cases Address.ofText? text <;> simp

theorem readAddress_eq_error {text : String} {fault : Fault} :
    readAddress text = .error fault ↔ Address.ofText? text = none ∧ fault = .badAddress text := by
  unfold readAddress
  cases Address.ofText? text <;> simp [eq_comm]

theorem convertAddresses_eq_mapM (texts : List String) :
    convertAddresses texts = texts.mapM readAddress := by
  induction texts with
  | nil => rfl
  | cons text texts ih =>
      rw [convertAddresses, List.mapM_cons, ← ih, readAddress]
      cases Address.ofText? text <;> rfl

theorem convertAddresses_eq_ok {texts : List String} {addresses : List Address} :
    convertAddresses texts = .ok addresses ↔ Spelled texts addresses := by
  simp only [convertAddresses_eq_mapM, mapM_eq_ok, readAddress_eq_ok, Spelled]

theorem firstFailure_readAddress {texts : List String} {fault : Fault} :
    FirstFailure readAddress texts fault ↔
      ∃ text, FirstBad texts text ∧ fault = .badAddress text := by
  have reads (earlier : String) : (∃ address, readAddress earlier = .ok address) ↔
      Address.ofText? earlier ≠ none := by
    simp only [readAddress_eq_ok, Option.ne_none_iff_exists']
  simp only [FirstFailure, reads, readAddress_eq_error]
  constructor
  · rintro ⟨before, text, after, whole, read, bad, same⟩
    exact ⟨text, ⟨before, after, whole, read, bad⟩, same⟩
  · rintro ⟨text, ⟨before, after, whole, read, bad⟩, same⟩
    exact ⟨before, text, after, whole, read, bad, same⟩

theorem convertAddresses_eq_error {texts : List String} {fault : Fault} :
    convertAddresses texts = .error fault ↔
      ∃ text, FirstBad texts text ∧ fault = .badAddress text := by
  rw [convertAddresses_eq_mapM, mapM_eq_error, firstFailure_readAddress]

/-- There is a first bad text as soon as there is a bad one. -/
theorem exists_firstBad {texts : List String} :
    (∃ text, FirstBad texts text) ↔ ∃ text ∈ texts, Address.ofText? text = none := by
  have failing : (∃ text, FirstBad texts text) ↔ ∃ fault, FirstFailure readAddress texts fault := by
    simp only [firstFailure_readAddress]
    exact ⟨fun ⟨text, first⟩ => ⟨_, text, first, rfl⟩, fun ⟨_, text, first, _⟩ => ⟨text, first⟩⟩
  rw [failing, exists_firstFailure]
  simp only [readAddress_eq_error, exists_and_left, exists_eq, and_true]

theorem Pod.convert_identified {pod : Pod} {ns name : String} {texts : List String}
    (placed : pod.ns = some ns) (named : pod.name = some name) (source : Source pod.status texts) :
    pod.convert =
      (convertAddresses texts).map (PolicyAcl.Pod.ofAddresses ⟨ns, name⟩) := by
  obtain ⟨ns?, name?, status?⟩ := pod
  obtain rfl : ns? = some ns := placed
  obtain rfl : name? = some name := named
  rw [← source.addressTexts]
  cases status? with
  | none => rfl
  | some status =>
      simp only [Pod.convert, Option.elim_some]
      cases convertAddresses status.addressTexts <;> rfl

end Manifest

/-- A pod without a namespace is reported for that, and otherwise one without a name for that.
Any other pod is converted from the texts of one source. It fails if a text of these is no
address, and the first such text is reported; otherwise it has the addresses that they spell,
each at its first place. The single text makes no difference if others are listed. -/
theorem pod_addresses_have_one_source (pod : Manifest.Pod) :
    (pod.ns = none → Manifest.Reports pod.convert .missingData "pod namespace") ∧
    (pod.ns ≠ none → pod.name = none → Manifest.Reports pod.convert .missingData "pod name") ∧
    (∃ texts, Manifest.Source pod.status texts) ∧
    (∀ ns name texts, pod.ns = some ns → pod.name = some name →
      Manifest.Source pod.status texts →
        ((∃ fault, pod.convert = .error fault) ↔ ∃ text ∈ texts, Address.ofText? text = none) ∧
        (∀ kind detail, Manifest.Reports pod.convert kind detail ↔
          ∃ text, Manifest.FirstBad texts text ∧ kind = .parseError ∧
            detail = "pod IP '" ++ text ++ "': " ++ Address.syntaxMessage) ∧
        ∀ peer, pod.convert = .ok peer ↔
          peer.key = ⟨ns, name⟩ ∧
            ∃ addresses, Manifest.Spelled texts addresses ∧ FirstSeen addresses peer.addresses) ∧
    ∀ status single, pod.status = some status → ¬Manifest.Unlisted status.podIPs →
      Manifest.Pod.convert { pod with status := some { status with podIP := single } } =
        pod.convert := by
  refine ⟨fun missing => ?unplaced, fun placed missing => ?unnamed,
    Manifest.exists_source pod.status, fun ns name texts placed named source => ?identified,
    fun status single given listed => ?single⟩
  case unplaced =>
    refine ⟨.missingNamespace, ?_, rfl, rfl⟩
    rw [Manifest.Pod.convert, missing]
    rfl
  case unnamed =>
    obtain ⟨ns, placed⟩ := Option.ne_none_iff_exists'.mp placed
    refine ⟨.missingName, ?_, rfl, rfl⟩
    rw [Manifest.Pod.convert, placed, missing]
    rfl
  case identified =>
    have failed (fault : Manifest.Fault) : pod.convert = .error fault ↔
        ∃ text, Manifest.FirstBad texts text ∧ fault = .badAddress text := by
      rw [Manifest.Pod.convert_identified placed named source,
        ← Manifest.convertAddresses_eq_error]
      cases Manifest.convertAddresses texts <;> simp [Except.map]
    refine ⟨?_, fun kind detail => ?_, fun peer => ?_⟩
    · rw [← Manifest.exists_firstBad]
      simp only [failed]
      constructor
      · rintro ⟨_, text, first, -⟩
        exact ⟨text, first⟩
      · rintro ⟨text, first⟩
        exact ⟨_, text, first, rfl⟩
    · simp only [Manifest.Reports, failed]
      constructor
      · rintro ⟨_, ⟨text, first, rfl⟩, rfl, rfl⟩
        exact ⟨text, first, rfl, rfl⟩
      · rintro ⟨text, first, rfl, rfl⟩
        exact ⟨_, ⟨text, first, rfl⟩, rfl, rfl⟩
    · rw [Manifest.Pod.convert_identified placed named source]
      simp only [← Manifest.convertAddresses_eq_ok]
      cases Manifest.convertAddresses texts with
      | error fault => simp [Except.map]
      | ok addresses =>
          simp only [Except.map, Except.ok.injEq, exists_eq_left']
          rw [eq_comm, Pod.eq_ofAddresses_iff]
  case single =>
    obtain ⟨ns, name, status?⟩ := pod
    obtain rfl : status? = some status := given
    obtain ⟨single', texts?⟩ := status
    cases texts? with
    | none => exact absurd (.inl rfl) listed
    | some texts =>
        cases texts with
        | nil => exact absurd (.inr rfl) listed
        | cons text texts => rfl

/-- A pod that lists two texts that are no addresses, beside its single one. -/
def faultyPod (single : String) : Manifest.Pod :=
  ⟨some "ns1", some "pod1", some ⟨some single, some ["10.0.0.1", "10.0.0.300", "pod"]⟩⟩

theorem pod_addresses_have_one_source_faulty :
    Manifest.Source (faultyPod "fd00::9").status ["10.0.0.1", "10.0.0.300", "pod"] ∧
    Manifest.Reports (faultyPod "fd00::9").convert .parseError
      "pod IP '10.0.0.300': invalid IP address syntax" ∧
    (faultyPod "pod").convert = (faultyPod "fd00::9").convert ∧
    Manifest.Reports (Manifest.Pod.convert { faultyPod "fd00::9" with name := none })
      .missingData "pod name" ∧
    Manifest.Reports (Manifest.Pod.convert { faultyPod "fd00::9" with ns := none, name := none })
      .missingData "pod namespace" := by
  have source : Manifest.Source (faultyPod "fd00::9").status ["10.0.0.1", "10.0.0.300", "pod"] :=
    .listed (some "fd00::9") (by simp)
  have first : Manifest.FirstBad ["10.0.0.1", "10.0.0.300", "pod"] "10.0.0.300" :=
    ⟨["10.0.0.1"], ["pod"], rfl, by decide +kernel, by decide +kernel⟩
  have listed : ¬Manifest.Unlisted (some ["10.0.0.1", "10.0.0.300", "pod"]) := by
    simp [Manifest.Unlisted]
  obtain ⟨-, -, -, identified, single⟩ := pod_addresses_have_one_source (faultyPod "fd00::9")
  obtain ⟨-, reported, -⟩ := identified "ns1" "pod1" _ rfl rfl source
  refine ⟨source, (reported _ _).mpr ⟨_, first, rfl, by decide⟩, single _ (some "pod") rfl listed,
    ?_, ?_⟩
  · exact (pod_addresses_have_one_source { faultyPod "fd00::9" with name := none }).2.1
      (Option.some_ne_none _) rfl
  · exact (pod_addresses_have_one_source
      { faultyPod "fd00::9" with ns := none, name := none }).1 rfl

end PolicyAcl
