import PolicyAcl.Config.File
import PolicyAcl.Manifest.Conversion
import PolicyAcl.Rule.Operations
import PolicyAcl.Proofs.Intent
import PolicyAcl.Proofs.Ownership
import PolicyAcl.Proofs.Plans
import PolicyAcl.Proofs.Coherence
import PolicyAcl.Proofs.Bookkeeping
import PolicyAcl.Proofs.Refinement
import PolicyAcl.Proofs.References
import PolicyAcl.Proofs.Retry
import PolicyAcl.Proofs.Failures
import PolicyAcl.Proofs.Interleaving
import PolicyAcl.Proofs.AclMatches
import PolicyAcl.Proofs.PortConversion
import PolicyAcl.Proofs.Isolation
import PolicyAcl.Proofs.Trail
import PolicyAcl.Proofs.Edges
import PolicyAcl.Proofs.Remains
import PolicyAcl.Proofs.PacketFields
import PolicyAcl.Proofs.SetNames
import PolicyAcl.Proofs.JsonGrammar
import PolicyAcl.Proofs.JsonTokens
import PolicyAcl.Proofs.JsonReader
import PolicyAcl.Proofs.JsonConfig
import PolicyAcl.Proofs.JsonLoading
import PolicyAcl.Proofs.YamlScalars
import PolicyAcl.Proofs.YamlNodes
import PolicyAcl.Proofs.YamlFlow
import PolicyAcl.Proofs.JsonCompact
import PolicyAcl.Proofs.JsonAsYaml
import PolicyAcl.Proofs.History
import PolicyAcl.Proofs.AddressMatches
import PolicyAcl.Proofs.Departure
import PolicyAcl.Proofs.Teardown
import PolicyAcl.Proofs.Creation
import PolicyAcl.Proofs.Frozen
import PolicyAcl.Proofs.AddressText
import PolicyAcl.Proofs.NetworkFamily
import PolicyAcl.Proofs.FirstSeen
import PolicyAcl.Proofs.ManifestFaults
import PolicyAcl.Proofs.PodManifest
import PolicyAcl.Proofs.PodSource
import PolicyAcl.Proofs.LetterCase
import PolicyAcl.Proofs.TransportText
import PolicyAcl.Proofs.PortNumbers
import PolicyAcl.Proofs.RuleManifest
import PolicyAcl.Proofs.ConfigFile
import PolicyAcl.Proofs.Display
import PolicyAcl.Proofs.AddingOrder
import PolicyAcl.Proofs.EnabledFamilies
