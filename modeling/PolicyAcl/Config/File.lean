import PolicyAcl.Config.OfJson
import PolicyAcl.Config.OfYaml

/-! Configuration files. The extension of a file's path decides how the file is
read, and a path without a known extension is refused whatever the file holds. -/
namespace PolicyAcl

/-- The reversed path without the slashes, and the slashes with a dot, that it
ends with. -/
def dropTrailing : List Char → List Char
  | '/' :: cs => dropTrailing cs
  | '.' :: '/' :: cs => dropTrailing cs
  | cs => cs

/-- The last component of a path; nothing if there is no component. -/
def lastComponent (path : String) : List Char :=
  ((dropTrailing path.toList.reverse).takeWhile (· ≠ '/')).reverse

/-- What follows the last dot of the last component, unless nothing is in front
of that dot or the component is two dots. -/
def pathExtension? (path : String) : Option String :=
  let component := lastComponent path
  let extension := (component.reverse.takeWhile (· ≠ '.')).reverse
  if component = ['.', '.'] ∨ component.length ≤ extension.length + 1 then none
  else some (.ofList extension)

namespace Config

/-- Read a file of which `contents` are the bytes, if it can be read. -/
def readFile (path : String) (contents : Option ByteArray) : Except ConfigError String :=
  match contents.bind String.fromUTF8? with
  | some text => .ok text
  | none => .error (.unreadable path)

def ofFile (path : String) (contents : Option ByteArray) : Except ConfigError Config :=
  match pathExtension? path with
  | none => .error (.missingExtension path)
  | some extension =>
    let folded := extension.toList.map Char.toLower
    if folded = "yaml".toList ∨ folded = "yml".toList then (readFile path contents).bind ofYaml
    else if folded = "json".toList then (readFile path contents).bind ofJson
    else .error (.unknownExtension extension)

end Config

end PolicyAcl
