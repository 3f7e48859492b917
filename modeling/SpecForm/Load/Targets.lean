import SpecForm.Document.Index

/-!
# The documents that a document refers to

Three keywords locate other documents.  Their references are read against the
base that is recorded for the object they stand in.
-/

namespace SpecForm.Load

def locators : List String := ["$ref", "$dynamicRef", "operationRef"]

def located? (base reference : String) : Option String :=
  let (file, _) := Reference.split reference
  if file.isEmpty then none else (Uri.resolve? base file).map Reference.withoutFragment

def locatedBy (base : String) (value : Json) : List String :=
  locators.filterMap fun keyword => (value.stringMember? keyword).bind (located? base)

mutual

/-- The documents that a value at a node refers to, in the order in which they are
written; `fallback` is the base of what has none recorded. -/
def locatedIn (store : Store) (fallback : String) (node : Node) : Json → List String
  | .object members =>
      let base := (store.provenance? node).elim fallback Provenance.base
      locatedBy base (.object members) ++ locatedInMembers store fallback node members
  | .array items => locatedInItems store fallback node 0 items
  | _ => []

def locatedInMembers (store : Store) (fallback : String) (node : Node) :
    List (String × Json) → List String
  | [] => []
  | (name, value) :: rest =>
      locatedIn store fallback (node.step name) value ++
        locatedInMembers store fallback node rest

def locatedInItems (store : Store) (fallback : String) (node : Node) (i : Nat) :
    List Json → List String
  | [] => []
  | value :: rest =>
      locatedIn store fallback (node.step (toString i)) value ++
        locatedInItems store fallback node (i + 1) rest

end

def targets (store : Store) (document : Node) : List String :=
  let fallback := Store.logicalUri document document.document.retrievalUri
  (locatedIn store fallback document document.value).eraseDups

end SpecForm.Load
