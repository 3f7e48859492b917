import SpecForm.Document.Store

/-!
# Indexing documents

A document is walked in the order in which it is written.  An object with an
`$id` starts a new base for everything beneath it and is mapped under it; an
anchor maps its object under the base with the anchor as fragment.  Every object
is recorded with its base, whether or not it declares anything.
-/

namespace SpecForm

namespace Store

/-! ## Objects -/

/-- Maps a node under the URI that its `$id` stands for, whole and without its
fragment, and returns the base beneath the node. -/
def bindId (store : Store) (base : String) (node : Node) : Store × String :=
  match (node.string? "$id").bind (Uri.resolve? base) with
  | none => (store, base)
  | some uri =>
      let beneath := Reference.withoutFragment uri
      let store := store.bindUri uri node
      (if beneath = uri then store else store.bindUri beneath node, beneath)

def anchorKeywords : List String := ["$anchor", "$dynamicAnchor"]

def bindAnchors (store : Store) (base : String) (node : Node) : Store :=
  anchorKeywords.foldl (fun store keyword =>
    match node.string? keyword with
    | some anchor => store.bindUri (base ++ "#" ++ anchor) node
    | none => store) store

def recordNode (store : Store) (node : Node) (provenance : Provenance) : Store :=
  match node.key? with
  | some key => store.record key provenance
  | none => store

def indexObject (store : Store) (source base : String) (node : Node) : Store × String :=
  let (store, beneath) := store.bindId base node
  ((store.recordNode node ⟨beneath, source⟩).bindAnchors beneath node, beneath)

/-! ## The walk -/

/-- Works off nodes, next first, each with the base that it stands under.  An object
whose key is among `seen` has been taken up. -/
def indexNodes (source : String) (store : Store) (seen : List Key) :
    List (Node × String) → Store
  | [] => store
  | (node, base) :: rest =>
      if node.isObject then
        if node.key?.any seen.contains then indexNodes source store seen rest
        else
          let indexed := store.indexObject source base node
          indexNodes source indexed.1 (node.key?.toList ++ seen)
            (node.children.map (·, indexed.2) ++ rest)
      else indexNodes source store seen (node.children.map (·, base) ++ rest)
termination_by pending => (pending.flatMap fun (node, _) => node.nodes).length
decreasing_by
  all_goals
    simp only [List.flatMap_append, List.flatMap_map, List.flatMap_cons, List.length_append,
      Node.nodes_eq node, List.length_cons]
    omega

def index (store : Store) (node : Node) (base source : String) : Store :=
  let (store, node) := store.adopt node
  indexNodes source store [] [(node, base)]

/-! ## Documents -/

/-- The URI that a document gives itself by `$self`, or the URI it was read
from. -/
def logicalUri (document : Node) (retrievalUri : String) : String :=
  ((document.string? "$self").bind (Uri.resolve? retrievalUri)).elim retrievalUri
    Reference.withoutFragment

theorem hash_notMem_logicalUri {uri : String} (h : '#' ∉ uri.toList) (document : Node) :
    '#' ∉ (logicalUri document uri).toList := by
  unfold logicalUri
  cases (document.string? "$self").bind (Uri.resolve? uri) with
  | none => exact h
  | some logical => exact Reference.hash_notMem_withoutFragment logical

/-- Adds a document under the URI it was read from, and returns its root.  If the
URI is taken, nothing changes. -/
def register (store : Store) (retrievalUri : String) (root : Json) : Store × Node :=
  match store.get? retrievalUri with
  | some node => (store, node)
  | none =>
      let node := Node.rootOf ⟨.loaded store.documents.length, none, retrievalUri, root⟩
      let logical := logicalUri node retrievalUri
      let store := { store with documents := store.documents ++ [node] }
      let store := (store.bindUri retrievalUri node).bindUri logical node
      (indexNodes retrievalUri store [] [(node, logical)], node)

end Store

end SpecForm
