import SpecForm.Document.Node

/-!
# Dialects

The version that a root document declares decides where its named schemas are.
-/

namespace SpecForm

inductive Dialect where
  | swagger2 | openApi30 | openApi31 | openApi32 | unknown
  deriving DecidableEq, Repr

namespace Dialect

def startsWith (text : String) (start : String) : Bool :=
  start.toList.isPrefixOf text.toList

def detect (root : Json) : Dialect :=
  match root.stringMember? "swagger" with
  | some version => if startsWith version "2." then .swagger2 else .unknown
  | none =>
      match root.stringMember? "openapi" with
      | some version =>
          if startsWith version "3.0" then .openApi30
          else if startsWith version "3.1" then .openApi31
          else if startsWith version "3.2" then .openApi32
          else .unknown
      | none => .unknown

def isRootDocument (root : Json) : Bool :=
  (root.member? "openapi").isSome || (root.member? "swagger").isSome

def hasDynamicReferences (dialect : Dialect) : Bool :=
  dialect = .openApi31 || dialect = .openApi32

def schemasPath (dialect : Dialect) : List String :=
  match dialect with
  | .swagger2 => ["definitions"]
  | _ => ["components", "schemas"]

def schemaPointer (dialect : Dialect) (name : String) : String :=
  Json.Pointer.ofTokens (dialect.schemasPath ++ [name])

end Dialect

def Node.schemas? (root : Node) : Option Node :=
  (Dialect.detect root.value).schemasPath.foldlM Node.member? root

end SpecForm
