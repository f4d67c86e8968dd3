import PolicyAcl.Family

/-! The configuration that rules are compiled under. A document says which
address families are enabled; the checks that do not depend on the document's
format are made here. -/
namespace PolicyAcl

structure Config where
  families : Families := .ipv4Only
deriving DecidableEq

inductive ConfigError where
  | noFamily
  | unreadable (path : String)
  | malformed
  | unknownExtension (extension : String)
  | missingExtension (path : String)
deriving DecidableEq, Repr

/-- The text of an error; what the reader of a format or of a file complains
about is not part of it. -/
def ConfigError.message : ConfigError → String
  | .noFamily => "No address family enabled: at least one of IPv4 or IPv6 is required"
  | .unreadable path => "Failed to read configuration file " ++ path
  | .malformed => "Failed to deserialize configuration"
  | .unknownExtension extension =>
    "Unsupported configuration file: unsupported file extension " ++ extension
  | .missingExtension path =>
    "Unsupported configuration file: missing file extension (" ++ path ++ ")"

/-- What a document says about the two families. -/
structure FamilyFlags where
  ipv4 : Bool
  ipv6 : Bool
deriving DecidableEq, Repr

namespace Config

def familiesKey : String := "families"

def ipv4Key : String := "ipv4"

def ipv6Key : String := "ipv6"

/-- The families that flags enable; at least one has to be. -/
def enable (flags : FamilyFlags) : Except ConfigError Families :=
  match Families.ofFlags? flags.ipv4 flags.ipv6 with
  | some families => .ok families
  | none => .error .noFamily

/-- A document without flags stands for the default configuration. -/
def ofFlags : Option FamilyFlags → Except ConfigError Config
  | none => .ok {}
  | some flags => (enable flags).map fun families => { families }

/-- The value of each known field, in the order of `names`. Unknown fields and
repeated ones are refused. -/
def fields? (names : List String) (fields : List (String × α)) : Option (List (Option α)) :=
  let keys := fields.map (·.1)
  if keys.Nodup ∧ ∀ key ∈ keys, key ∈ names then some (names.map fun name => List.lookup name fields)
  else none

end Config

end PolicyAcl
