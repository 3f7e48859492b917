import SpecForm.Document.Index

/-!
# Following references

A reference is followed until a node is reached that is no reference.  The scope
lists the URIs at which references were found on the way, outermost first; a
reference found at a URI that is in the scope would be followed for ever, and
leads nowhere.  Nothing is an error here: a reference that cannot be followed
has no target.
-/

namespace SpecForm

namespace Store

/-- More than the number of URIs at which a reference in the store can be found:
each is a mapped URI with a fragment that some object of the store refers to, or
with the fragment of the first reference. -/
def hopBound (store : Store) : Nat :=
  store.entries.length *
    (store.entries.foldl (fun size (_, node) => size + node.document.root.size) 0 + 1)

end Store

/-- A store with the URI of its entry document, against which the references of
nodes without provenance are read. -/
structure Resolver where
  store : Store
  entry : String
  limit : Nat
  hopBound_le_limit : store.hopBound ≤ limit

namespace Resolver

def new (store : Store) (entry : String) : Resolver :=
  ⟨store, entry, store.hopBound, Nat.le_refl _⟩

def baseOf (resolver : Resolver) (node : Node) : String :=
  (resolver.store.provenance? node).elim resolver.entry Provenance.base

def logicalBase (resolver : Resolver) (uri : String) : String :=
  let retrievalUri := Reference.withoutFragment uri
  match resolver.store.get? retrievalUri with
  | some document => Store.logicalUri document retrievalUri
  | none => retrievalUri

def targetUri? (resolver : Resolver) (file base : String) : Option String :=
  let logical := resolver.logicalBase base
  if file.isEmpty then some logical
  else (Uri.resolve? logical file).map Reference.withoutFragment

/-- The outermost resource of the scope that declares the anchor. -/
def inScope? (resolver : Resolver) (anchor : String) (scope : List String) : Option Node :=
  scope.findSome? fun uri => resolver.store.get? (Reference.withoutFragment uri ++ "#" ++ anchor)

/-- Where one reference leads: to a node that is taken as it is, or to a node
that is itself a reference, found at `uri` and to be read against `base`. -/
inductive Hop where
  | missing
  | found (node : Node)
  | onward (uri : String) (node : Node) (base : String)
  deriving Inhabited

/-- The node that a reference names, when no node is mapped under its full URI. -/
def hopInside (resolver : Resolver) (target fragment : String) : Hop :=
  match resolver.store.get? target with
  | none => .missing
  | some document =>
      let node :=
        if fragment.isEmpty then some document
        else if Json.Pointer.isPointer fragment then
          document.follow? (Json.Pointer.tokens fragment)
        else none
      match node with
      | none => .missing
      | some node =>
          if node.isReference then
            .onward (Reference.withFragment target fragment) node
              ((resolver.store.provenance? node).elim target Provenance.base)
          else .found node

def hop (resolver : Resolver) (text : String) (kind : Node.RefKind) (base : String)
    (scope : List String) : Hop :=
  let (file, fragment) := Reference.split text
  match resolver.targetUri? file base with
  | none => .missing
  | some target =>
      let redirected :=
        if kind = .dynamic && !fragment.isEmpty && !Json.Pointer.isPointer fragment then
          resolver.inScope? fragment scope
        else none
      match redirected with
      | some node => .found node
      | none =>
          match resolver.store.get? (Reference.withFragment target fragment) with
          | some node => .found node
          | none => resolver.hopInside target fragment

def chase (resolver : Resolver) (limit : Nat) (text : String) (kind : Node.RefKind)
    (base : String) (scope : List String) : Option Node :=
  match resolver.hop text kind base scope with
  | .missing => none
  | .found node => some node
  | .onward uri node nextBase =>
      if scope.contains uri then none
      else match limit, node.role with
        | limit + 1, .reference text kind =>
            (chase resolver limit text kind nextBase (scope ++ [uri])).map node.overlay
        | _, _ => none

/-! ## Resolving -/

def resolveInScope (resolver : Resolver) (node : Node) (scope : List String) : Option Node :=
  match node.role with
  | .plain => some node
  | .broken => none
  | .reference text kind =>
      (resolver.chase resolver.limit text kind (resolver.baseOf node) scope).map node.overlay

def resolve (resolver : Resolver) (node : Node) : Option Node := resolver.resolveInScope node []

/-- The target of a reference text.  An anchor is first sought in the scope, as
for dynamic references. -/
def resolveReference (resolver : Resolver) (text base : String) (scope : List String) :
    Option Node :=
  resolver.chase resolver.limit text .dynamic base scope

def resolveFragment (resolver : Resolver) (fragment : String) : Option Node :=
  resolver.chase resolver.limit ("#" ++ fragment) .lexical resolver.entry []

end Resolver

end SpecForm
