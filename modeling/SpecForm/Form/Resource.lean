import SpecForm.Document.Dialect
import SpecForm.Document.Resolve
import SpecForm.Fault
import SpecForm.Form.Model

/-!
# Properties of a model

A model has the properties that its schema names and those of the members of its
`allOf`, which may have an `allOf` in turn.  Of two properties of one name the
first is kept; it is required if any of the schemas says so.  A schema that has a
key is visited once.
-/

namespace SpecForm.Form

structure Merge where
  properties : List (String × Node)
  required : List String
  seen : List Key
  pending : List Node
  deriving Inhabited

namespace Merge

def start (schema : Node) : Merge := ⟨[], [], [], [schema]⟩

def isDone (merge : Merge) : Bool := merge.pending.isEmpty

def addProperty (properties : List (String × Node)) (entry : String × Node) :
    List (String × Node) :=
  if properties.any fun (name, _) => name = entry.1 then properties else properties ++ [entry]

def requiredNames (schema : Node) : List String :=
  (((schema.value.member? "required").bind Json.asArray?).getD []).filterMap Json.asString?

def parts (schema : Node) : List Node := (schema.member? "allOf").elim [] Node.items

def visit (merge : Merge) (schema : Node) : Merge :=
  let own := (schema.member? "properties").elim [] Node.entries
  { merge with
    properties := own.foldl addProperty merge.properties
    required := merge.required ++ requiredNames schema
    pending := parts schema ++ merge.pending }

/-- Visits the next schema; one that leads nowhere, or has been seen, adds
nothing. -/
def step (resolver : Resolver) (merge : Merge) : Merge :=
  match merge.pending with
  | [] => merge
  | next :: rest =>
      let merge := { merge with pending := rest }
      match resolver.resolve next with
      | none => merge
      | some schema =>
          match schema.key? with
          | none => merge.visit schema
          | some key =>
              if merge.seen.contains key then merge
              else { merge with seen := key :: merge.seen }.visit schema

/-- Takes `2 ^ n` steps, or as many as there are. -/
def exhaust (resolver : Resolver) : Nat → Merge → Merge
  | 0, merge => merge.step resolver
  | n + 1, merge =>
      let half := exhaust resolver n merge
      if half.isDone then half else exhaust resolver n half

end Merge

/-- The properties of a schema, its own before those of its parts.  The number
of steps allowed is beyond anything that ends. -/
def mergedProperties (resolver : Resolver) (schema : Node) : List Property :=
  let size := resolver.limit + schema.document.root.size
  let merge := Merge.exhaust resolver (Nat.log2 size + 64) (Merge.start schema)
  merge.properties.map fun (name, node) => ⟨name, node, merge.required.contains name⟩

namespace Resource

def ofSchema (resolver : Resolver) (modelName : String) (schema : Node) : Resource :=
  let resolved := resolver.resolve schema
  ⟨modelName, resolved.elim [] (mergedProperties resolver), resolved⟩

def ofComponent (resolver : Resolver) (dialect : Dialect) (name : String) :
    Except Fault Resource :=
  match resolver.resolveFragment (dialect.schemaPointer name) with
  | some schema => .ok (ofSchema resolver name schema)
  | none => .error (.schemaNotFound name)

end Resource

end SpecForm.Form
