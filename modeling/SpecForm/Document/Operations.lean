import SpecForm.Document.Dialect
import SpecForm.Document.Store
import SpecForm.Fault

/-!
# Operations and their names

The operations of a root document stand in path items, which stand in several
places.  No two operations of a set of documents may have the same
`operationId`.
-/

namespace SpecForm

def methods : List String :=
  ["get", "put", "post", "delete", "options", "head", "patch", "trace", "query"]

namespace Node

/-- The operations of a path item.  One that is a reference has none: they belong
to the document that defines them. -/
def itemOperations (context : String) (item : Node) : List (String × Node) :=
  if item.has "$ref" then []
  else
    (methods.filterMap fun method =>
      (item.member? method).map fun operation => (context ++ "." ++ method, operation)) ++
    ((item.member? "additionalOperations").elim [] entries).map fun (method, operation) =>
      (context ++ "." ++ method, operation)

def itemsOperations (context : String) (items : Node) : List (String × Node) :=
  items.entries.flatMap fun (name, item) => itemOperations (context ++ "." ++ name) item

def pathItemMaps (root : Node) : List (String × Node) :=
  let below (node : Node) (context : String) (names : List String) : List (String × Node) :=
    names.filterMap fun name => (node.member? name).map fun items => (context ++ name, items)
  let components := root.member? "components"
  below root "" ["paths", "webhooks"] ++
    components.elim [] (fun components =>
      below components "components." ["pathItems", "webhooks"] ++
        ((components.member? "callbacks").elim [] entries).map fun (name, items) =>
          ("components.callbacks." ++ name, items))

def operations (root : Node) : List (String × Node) :=
  root.pathItemMaps.flatMap fun (context, items) => itemsOperations context items

end Node

namespace Store

def operationIds (store : Store) : List (String × String) :=
  (store.documents.filter fun root => Dialect.isRootDocument root.value).flatMap fun root =>
    root.operations.filterMap fun (context, operation) =>
      (operation.string? "operationId").map fun id =>
        (id, root.document.retrievalUri ++ "::" ++ context)

def locationsOf (id : String) (ids : List (String × String)) : List String :=
  ids.filterMap fun (other, location) => if other = id then some location else none

def validate (store : Store) : Except Fault Unit :=
  let ids := store.operationIds
  match ids.find? fun (id, _) => 1 < (locationsOf id ids).length with
  | some (id, _) => .error (.duplicateOperation id (locationsOf id ids))
  | none => .ok ()

end Store

end SpecForm
