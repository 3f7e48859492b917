import SpecForm.Fault
import SpecForm.Json.Reader
import SpecForm.Uri.File
import SpecForm.Yaml.Reader

/-!
# The text of a document

The extension of a URI says how its text is to be read.  Where it says nothing
the text may be either format; JSON is tried first, since most of it is YAML too.
-/

namespace SpecForm.Load

inductive Format where
  | json | yaml | either
  deriving DecidableEq, Repr

def formatOf (uri : String) : Format :=
  match Uri.extension? uri with
  | some "json" => .json
  | some "yaml" | some "yml" => .yaml
  | _ => .either

def notJson : String := "not a JSON text"

def notYaml : String := "not a YAML document"

def parse (uri text : String) : Except Fault Json :=
  match formatOf uri with
  | .json =>
      match Json.parse? text with
      | some value => .ok value
      | none => .error (.malformed uri notJson "not attempted for .json")
  | .yaml =>
      match Yaml.parse? text with
      | some value => .ok value
      | none => .error (.malformed uri "not attempted for .yaml" notYaml)
  | .either =>
      match Json.parse? text with
      | some value => .ok value
      | none =>
          match Yaml.parse? text with
          | some value => .ok value
          | none => .error (.malformed uri notJson notYaml)

def absoluteUri (directory name : String) : Except Fault String :=
  match Uri.absolute directory name with
  | .ok uri => .ok uri
  | .error (.invalid cause) => .error (.invalidUri name cause)
  | .error .emptyPath => .error (.unreadable name "cannot make an empty path absolute" false)

end SpecForm.Load
