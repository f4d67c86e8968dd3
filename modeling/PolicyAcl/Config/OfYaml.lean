import PolicyAcl.Config.Basic
import PolicyAcl.Yaml.Reference

/-! Configurations in YAML. A record is a mapping whose keys are scalars of any
style. Only plain scalars are booleans or null. -/
namespace PolicyAcl.Config

open Yaml (Node Targets)

def boolOfWord? (word : String) : Option Bool :=
  if word ∈ ["true", "True", "TRUE"] then some true
  else if word ∈ ["false", "False", "FALSE"] then some false
  else none

def isNullWord (word : String) : Bool := word ∈ ["", "~", "null", "Null", "NULL"]

def keyOfYaml? (targets : Targets) (key : Node Nat) : Option String :=
  match key.resolve? targets with
  | some (.scalar _ _ text) => some text
  | _ => none

def recordOfYaml? (targets : Targets) (names : List String) (node : Node Nat) :
    Option (List (Option (Node Nat))) :=
  match node with
  | .mapping _ entries => do
    let fields ← entries.mapM fun (key, value) => do return (← keyOfYaml? targets key, value)
    fields? names fields
  | _ => none

/-- Nothing but a boolean is a flag; an absent flag is false. -/
def flagOfYaml? (targets : Targets) : Option (Node Nat) → Option Bool
  | none => some false
  | some node =>
    match node.resolve? targets with
    | some (.scalar _ .plain word) => boolOfWord? word
    | _ => none

/-- What the families' node says; null says nothing. -/
def flagsOfYaml? (targets : Targets) (node : Node Nat) : Option (Option FamilyFlags) :=
  match node.resolve? targets with
  | none => none
  | some (.scalar _ style word) => if style = .plain ∧ isNullWord word then some none else none
  | some node =>
    match recordOfYaml? targets [ipv4Key, ipv6Key] node with
    | some [ipv4, ipv6] => do
      return some ⟨← flagOfYaml? targets ipv4, ← flagOfYaml? targets ipv6⟩
    | _ => none

/-- What a document says about the families. A document that is left out, and
one that is an empty plain scalar, says nothing. -/
def documentOfYaml? (document : Option Yaml.Document) : Option (Option FamilyFlags) :=
  match document with
  | none => some none
  | some ⟨.scalar _ style text, _⟩ => if style = .plain ∧ text = "" then some none else none
  | some ⟨root, targets⟩ =>
    match recordOfYaml? targets [familiesKey] root with
    | some [none] => some none
    | some [some families] => flagsOfYaml? targets families
    | _ => none

/-- Load a YAML document. All faults of the text come before the check of the
families. -/
def ofYaml (text : String) : Except ConfigError Config :=
  match (Yaml.document? text.toList).bind documentOfYaml? with
  | some flags => ofFlags flags
  | none => .error .malformed

end PolicyAcl.Config
