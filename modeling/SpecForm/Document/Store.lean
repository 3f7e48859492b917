import SpecForm.Document.Node
import SpecForm.Reference
import SpecForm.Uri.File

/-!
# Document stores

A store holds loaded documents, in the order of loading, and maps URIs to nodes:
the URI each document was read from, the URI it gives itself, and the URIs that
schemas inside it declare.  For every object that was indexed it knows the base
URI that references in the object are read against.  Nothing that a store maps
is ever changed or removed; the first writer of a key wins.
-/

namespace SpecForm

/-- Where a node was found: the base URI of its references, and the document
that holds it. -/
structure Provenance where
  base : String
  source : String
  deriving DecidableEq, Repr

/-- `entries` and `origins` are kept latest first; `kept` counts the documents
that were not loaded. -/
structure Store where
  entries : List (String × Node)
  documents : List Node
  origins : List (Key × Provenance)
  kept : Nat
  deriving Inhabited

namespace Store

def empty : Store := ⟨[], [], [], 0⟩

def get? (store : Store) (uri : String) : Option Node := store.entries.lookup uri

def contains (store : Store) (uri : String) : Bool := (store.get? uri).isSome

def size (store : Store) : Nat := store.entries.length

def keys (store : Store) : List String :=
  (store.entries.map Prod.fst).mergeSort fun a b => a ≤ b

def provenance? (store : Store) (node : Node) : Option Provenance :=
  node.key?.bind fun key => store.origins.lookup key

/-! ## Writing -/

def bindUri (store : Store) (uri : String) (node : Node) : Store :=
  if store.contains uri then store
  else { store with entries := (uri, node) :: store.entries }

def record (store : Store) (key : Key) (provenance : Provenance) : Store :=
  if (store.origins.lookup key).isSome then store
  else { store with origins := (key, provenance) :: store.origins }

/-- Marks the document of a node as kept by the store, unless it was loaded or
is kept already. -/
def adopt (store : Store) (node : Node) : Store × Node :=
  match node.document.identity, node.document.mark with
  | .loaded _, _ | _, some _ => (store, node)
  | _, none =>
      ({ store with kept := store.kept + 1 },
        { node with document := { node.document with mark := some store.kept } })

def insert (store : Store) (uri : String) (node : Node) : Store :=
  if store.contains uri then store
  else
    let (store, node) := store.adopt node
    store.bindUri uri node

/-! ## Laws -/

private theorem lookup_push {α β : Type} [BEq α] [LawfulBEq α] {key other : α} {value : β}
    {entries : List (α × β)} (h : entries.lookup key = none) :
    List.lookup other ((key, value) :: entries) =
      (entries.lookup other).or (if other == key then some value else none) := by
  rw [List.lookup_cons]
  by_cases ho : other = key
  · subst ho
    simp [h]
  · simp [beq_eq_false_iff_ne.mpr ho]

theorem get?_bindUri (store : Store) (uri other : String) (node : Node) :
    (store.bindUri uri node).get? other =
      (store.get? other).or (if other == uri then some node else none) := by
  by_cases hc : store.contains uri
  · rw [bindUri, if_pos hc]
    obtain ⟨found, hf⟩ := Option.isSome_iff_exists.mp hc
    by_cases ho : other = uri
    · simp [ho, hf]
    · simp [ho]
  · rw [bindUri, if_neg hc]
    exact lookup_push (Option.not_isSome_iff_eq_none.mp hc)

theorem lookup_record (store : Store) (key other : Key) (provenance : Provenance) :
    (store.record key provenance).origins.lookup other =
      (store.origins.lookup other).or (if other == key then some provenance else none) := by
  by_cases hc : (store.origins.lookup key).isSome
  · rw [record, if_pos hc]
    obtain ⟨found, hf⟩ := Option.isSome_iff_exists.mp hc
    by_cases ho : other = key
    · simp [ho, hf]
    · simp [ho]
  · rw [record, if_neg hc]
    exact lookup_push (Option.not_isSome_iff_eq_none.mp hc)

@[simp] theorem origins_bindUri (store : Store) (uri : String) (node : Node) :
    (store.bindUri uri node).origins = store.origins := by
  rw [bindUri]
  split <;> rfl

@[simp] theorem get?_record (store : Store) (key : Key) (provenance : Provenance)
    (uri : String) : (store.record key provenance).get? uri = store.get? uri := by
  rw [record]
  split <;> rfl

@[simp] theorem documents_bindUri (store : Store) (uri : String) (node : Node) :
    (store.bindUri uri node).documents = store.documents := by
  rw [bindUri]
  split <;> rfl

@[simp] theorem documents_record (store : Store) (key : Key) (provenance : Provenance) :
    (store.record key provenance).documents = store.documents := by
  rw [record]
  split <;> rfl

end Store

end SpecForm
