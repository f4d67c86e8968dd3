import PolicyAcl.Config.Basic
import PolicyAcl.Json.Reader

/-! Configurations in JSON. A record is written as an object, or as an array of
its fields in order in which missing fields at the end take their defaults. -/
namespace PolicyAcl.Config

open Json (Value)

/-- Nothing but a boolean is a flag; an absent flag is false. -/
def flagOfJson? : Option Value → Option Bool
  | none => some false
  | some (.bool flag) => some flag
  | some _ => none

def recordOfJson? (names : List String) : Value → Option (List (Option Value))
  | .object fields => fields? names fields
  | .array items =>
    if items.length ≤ names.length then
      some (items.map some ++ List.replicate (names.length - items.length) none)
    else none
  | _ => none

def flagsOfJson? (value : Value) : Option FamilyFlags :=
  match recordOfJson? [ipv4Key, ipv6Key] value with
  | some [ipv4, ipv6] => do return ⟨← flagOfJson? ipv4, ← flagOfJson? ipv6⟩
  | _ => none

/-- What a document says about the families; null says nothing. -/
def documentOfJson? (value : Value) : Option (Option FamilyFlags) :=
  match recordOfJson? [familiesKey] value with
  | some [none] => some none
  | some [some .null] => some none
  | some [some families] => (flagsOfJson? families).map some
  | _ => none

/-- Load a JSON document. All faults of the text come before the check of the
families. -/
def ofJson (text : String) : Except ConfigError Config :=
  match (Json.document? text.toList).bind documentOfJson? with
  | some flags => ofFlags flags
  | none => .error .malformed

/-- Decode the value in front of a text; what follows it is looked at last. -/
def decodeLeading (decode : Value → Except ConfigError α) (text : String) :
    Except ConfigError α :=
  match Json.read? text.toList with
  | none => .error .malformed
  | some (value, rest) => do
    let result ← decode value
    if Json.skipBlanks rest = [] then return result else throw .malformed

/-- Decode a configuration: the families are checked as soon as the value is
complete, before any text after it. -/
def decodeJson : String → Except ConfigError Config :=
  decodeLeading fun value =>
    match documentOfJson? value with
    | some flags => ofFlags flags
    | none => .error .malformed

def decodeFamilies : String → Except ConfigError Families :=
  decodeLeading fun value =>
    match flagsOfJson? value with
    | some flags => enable flags
    | none => .error .malformed

end PolicyAcl.Config
