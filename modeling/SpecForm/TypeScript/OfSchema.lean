import SpecForm.Document.Resolve
import SpecForm.Naming.Words
import SpecForm.Schema.Keywords
import SpecForm.TypeScript.Type

/-!
# The type of a schema

A reference becomes the name of its target; any other schema is written out, to
a depth of sixteen.  What comes first decides: a constant, an enumeration,
`allOf`, `anyOf` or `oneOf`, the declared types, and last the keywords that only
objects or arrays have.
-/

namespace SpecForm.TypeScript

open Schema

def maxDepth : Nat := 16

inductive Additional where
  | schema (node : Node)
  | anything
  deriving Inhabited

def additional? (schema : Node) : Option Additional :=
  let first := (schema.member? "patternProperties").bind fun patterns => patterns.entries.head?
  match first with
  | some (_, node) => some (.schema node)
  | none =>
      ["additionalProperties", "unevaluatedProperties"].findSome? fun keyword =>
        match schema.member? keyword with
        | some node =>
            if node.isObject then some (.schema node)
            else if node.value.asBool? = some true then some .anything
            else none
        | none => none

def forbidsAdditional (schema : Node) : Bool :=
  (schema.value.member? "additionalProperties").bind Json.asBool? = some false

def isObjectLike (schema : Node) : Bool :=
  ["properties", "additionalProperties", "patternProperties", "unevaluatedProperties"].any
    schema.has

def objectOf (named : Option (List (String × Bool × TypeExpr))) (others : Option TypeExpr)
    (forbids : Bool) : TypeExpr :=
  match named, others with
  | some (member :: rest), some other =>
      .intersection [.object (member :: rest), .stringRecord other]
  | _, some other => .stringRecord other
  | some members, none => .object members
  | none, none => if forbids then .object [] else .stringRecord .unknown

/-- The type of a declared type name.  The types of the schema as an array and as
an object are worked out only where they are asked for. -/
def ofTypeName (keywords : Keywords) (array object : Unit → TypeExpr) (name : String) :
    TypeExpr :=
  match name with
  | "string" => .primitive (if keywords.isBinary then .file else .string)
  | "file" => .primitive .file
  | "integer" | "number" => .primitive .number
  | "boolean" => .primitive .boolean
  | "array" => array ()
  | "object" => object ()
  | _ => .unknown

def ofDeclared (schema : Node) (keywords : Keywords) (array object : Unit → TypeExpr) :
    TypeExpr :=
  match keywords.nonNullTypes with
  | [] =>
      if keywords.hasType "null" then .null
      else if isObjectLike schema then object ()
      else if schema.has "items" then array ()
      else .unknown
  | names => .unionOf (names.map (ofTypeName keywords array object))

def ofSchemaWithin (resolver : Resolver) : Nat → Node → TypeExpr
  | 0, _ => .unknown
  | depth + 1, schema =>
      if !schema.isObject then .unknown
      else
        let keywords := Keywords.ofNode schema
        let convert := ofSchemaWithin resolver depth
        match keywords.reference, keywords.dynamicReference with
        | some reference, _ => .named (Naming.pascalCase (Reference.targetName reference))
        | none, some _ => (resolver.resolve schema).elim .unknown convert
        | none, none =>
            let array (_ : Unit) : TypeExpr :=
              .array ((schema.member? "items").elim .unknown convert)
            let object (_ : Unit) : TypeExpr :=
              let required := keywords.required.getD []
              let named := (schema.member? "properties").map fun properties =>
                properties.entries.map fun (name, node) =>
                  (name, !required.contains name, convert node)
              let others := (additional? schema).map fun
                | .schema node => convert node
                | .anything => .unknown
              objectOf named others (forbidsAdditional schema)
            let branches := (schema.member? "anyOf").or (schema.member? "oneOf")
            let type :=
              match keywords.const, keywords.enumeration, schema.member? "allOf", branches with
              | some value, _, _, _ => .ofValue value
              | none, some values, _, _ => .unionOf (values.map .ofValue)
              | none, none, some parts, _ => .intersectionOf (parts.items.map convert)
              | none, none, none, some branches => .unionOf (branches.items.map convert)
              | none, none, none, none => ofDeclared schema keywords array object
            if keywords.isNullable then type.orNull else type

def ofSchema (resolver : Resolver) (schema : Node) : TypeExpr :=
  ofSchemaWithin resolver (maxDepth + 1) schema

end SpecForm.TypeScript
