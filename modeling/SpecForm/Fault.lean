import SpecForm.Uri.Basic

/-!
# Faults

Everything that ends the work on a set of documents.  A reference that leads
nowhere is no fault; it is left out of the answer.
-/

namespace SpecForm

inductive Fault where
  | unreadable (uri reason : String) (missing : Bool)
  | transport (uri reason : String)
  | client (reason : String)
  | status (uri : String) (code : Nat)
  | notFound (uri : String)
  | malformed (uri json yaml : String)
  | invalidUri (input : String) (cause : Uri.ParseError)
  | unsupportedScheme (uri : String)
  | duplicateOperation (id : String) (locations : List String)
  | config (path reason : String)
  | schemaNotFound (name : String)
  deriving DecidableEq, Repr

namespace Fault

def message : Fault → String
  | .unreadable uri reason _ => "Failed to read " ++ uri ++ ": " ++ reason
  | .transport uri reason => "HTTP request for " ++ uri ++ " failed: " ++ reason
  | .client reason => "Failed to build HTTP client: " ++ reason
  | .status uri code => "HTTP request for " ++ uri ++ " returned status " ++ toString code
  | .notFound uri => "Document not found: " ++ uri
  | .malformed uri json yaml =>
      "Failed to parse " ++ uri ++ " as JSON (" ++ json ++ ") or YAML (" ++ yaml ++ ")"
  | .invalidUri input cause => "Invalid URI or path '" ++ input ++ "': " ++ cause.message
  | .unsupportedScheme uri => "Unsupported URI scheme: " ++ uri
  | .duplicateOperation id locations =>
      "Duplicate operationId '" ++ id ++ "' found in: " ++ ", ".intercalate locations
  | .config path reason => "Invalid configuration in " ++ path ++ ": " ++ reason
  | .schemaNotFound name => "Schema not found: " ++ name

def isNotFound : Fault → Bool
  | .notFound _ => true
  | .unreadable _ _ missing => missing
  | .status _ code => code = 404
  | _ => false

end Fault

end SpecForm
