import SpecForm.Proofs.Store.Indexing

/-!
# What a store maps

A store that was filled by registering documents is told by the documents it holds.  Its
keys are what the documents declare, one document after the other, and its records are
the bases of their objects; of two entries with one key the earlier counts.  So every
key of the store has a reason in one of the documents, and nothing that a document
declares is without a key.
-/

namespace SpecForm.Store

variable {documents : List (String × Json)} {document node : Node} {key : String}

/-- What a document is mapped under, and what its objects are, in the order of mapping. -/
def mappings (document : Node) : List (String × Node) :=
  let uri := document.document.retrievalUri
  let logical := logicalUri document uri
  (uri, document) :: (logical, document) ::
    (document.objects logical).flatMap fun entry => entry.1.declared entry.2

def records (document : Node) : List (Key × Provenance) :=
  let uri := document.document.retrievalUri
  recorded uri (document.objects (logicalUri document uri))

theorem get?_ofDocuments (documents : List (String × Json)) (key : String) :
    (ofDocuments documents).get? key =
      ((ofDocuments documents).documents.flatMap mappings).lookup key := by
  refine ofDocuments_induction
    (P := fun store => store.get? key = (store.documents.flatMap mappings).lookup key)
    rfl (fun store uri root ih => ?_) documents
  cases hfresh : store.get? uri with
  | some node => rwa [register_of_taken hfresh]
  | none =>
      rw [get?_register hfresh, documents_register_of_fresh hfresh, List.flatMap_append,
        List.lookup_append, ih, List.flatMap_singleton]
      rfl

theorem lookup_ofDocuments (documents : List (String × Json)) (key : Key) :
    (ofDocuments documents).origins.lookup key =
      ((ofDocuments documents).documents.flatMap records).lookup key := by
  refine ofDocuments_induction
    (P := fun store => store.origins.lookup key = (store.documents.flatMap records).lookup key)
    rfl (fun store uri root ih => ?_) documents
  cases hfresh : store.get? uri with
  | some node => rwa [register_of_taken hfresh]
  | none =>
      rw [lookup_register hfresh, documents_register_of_fresh hfresh, List.flatMap_append,
        List.lookup_append, ih, List.flatMap_singleton]
      rfl

/-! ## Keys -/

theorem exists_mappings_of_get? (h : (ofDocuments documents).get? key = some node) :
    ∃ document ∈ (ofDocuments documents).documents, (key, node) ∈ mappings document := by
  rw [get?_ofDocuments, List.lookup_eq_some_iff] at h
  obtain ⟨front, back, hentries, -⟩ := h
  exact List.mem_flatMap.mp (hentries ▸ List.mem_append_right front List.mem_cons_self)

theorem isSome_get?_of_mem_mappings (hdocument : document ∈ (ofDocuments documents).documents)
    (h : (key, node) ∈ mappings document) : ((ofDocuments documents).get? key).isSome := by
  rw [get?_ofDocuments, Option.isSome_iff_ne_none]
  intro hnone
  have hmem : (key, node) ∈ (ofDocuments documents).documents.flatMap mappings :=
    List.mem_flatMap.mpr ⟨document, hdocument, h⟩
  simpa using List.lookup_eq_none_iff.mp hnone _ hmem

theorem mem_mappings :
    (key, node) ∈ mappings document ↔
      let logical := logicalUri document document.document.retrievalUri
      ((key = document.document.retrievalUri ∨ key = logical) ∧ node = document) ∨
        ∃ outer, (node, outer) ∈ document.objects logical ∧
          (key ∈ node.identifiers outer ∨ key ∈ node.anchors (node.baseUnder outer)) := by
  simp only [mappings, List.mem_cons, Prod.mk.injEq, List.mem_flatMap, Node.declared,
    List.mem_map, List.mem_append, Prod.exists, ← or_assoc, ← or_and_right]
  constructor
  · rintro (hown | ⟨holder, outer, hholder, uri, huri, rfl, rfl⟩)
    · exact .inl hown
    · exact .inr ⟨outer, hholder, huri⟩
  · rintro (hown | ⟨outer, hmem, hkey⟩)
    · exact .inl hown
    · exact .inr ⟨node, outer, hmem, key, hkey, rfl, rfl⟩

theorem within_of_mem_mappings (h : (key, node) ∈ mappings document) : document.Within node := by
  rcases mem_mappings.mp h with ⟨-, rfl⟩ | ⟨outer, hmem, -⟩
  · exact .root
  · exact (Node.hasBase_of_mem_tree (List.mem_of_mem_filter hmem)).within

theorem Orderly.eq_of_key? {store : Store} (h : store.Orderly) {document' node' : Node}
    (hdocument : document ∈ store.documents) (hdocument' : document' ∈ store.documents)
    (hnode : document.Within node) (hnode' : document'.Within node')
    (hkey : node.key? = node'.key?) : node = node' := by
  obtain ⟨i, hi⟩ := List.mem_iff_getElem?.mp hdocument
  obtain ⟨j, hj⟩ := List.mem_iff_getElem?.mp hdocument'
  obtain ⟨hown, -⟩ := hnode.exists_path
  obtain ⟨hown', -⟩ := hnode'.exists_path
  rw [Node.key?, Node.key?, hown, hown', (h.numbered hi).1, (h.numbered hj).1] at hkey
  obtain ⟨rfl, hpointer⟩ := Prod.mk.inj (Option.some.inj hkey)
  obtain rfl := Option.some.inj (hi.symm.trans hj)
  cases node
  cases node'
  simp_all

theorem eq_of_get?_of_key? {key' : String} {node' : Node}
    (h : (ofDocuments documents).get? key = some node)
    (h' : (ofDocuments documents).get? key' = some node') (hkey : node.key? = node'.key?) :
    node = node' := by
  obtain ⟨document, hdocument, hmem⟩ := exists_mappings_of_get? h
  obtain ⟨document', hdocument', hmem'⟩ := exists_mappings_of_get? h'
  exact (Orderly.ofDocuments documents).eq_of_key? hdocument hdocument'
    (within_of_mem_mappings hmem) (within_of_mem_mappings hmem') hkey

/-! ## Bases -/

theorem hash_notMem_of_provenance? {provenance : Provenance}
    (hplain : ∀ document ∈ (ofDocuments documents).documents,
      '#' ∉ document.document.retrievalUri.toList)
    (h : (ofDocuments documents).provenance? node = some provenance) :
    '#' ∉ provenance.base.toList := by
  obtain ⟨key, -, hlookup⟩ := Option.bind_eq_some_iff.mp h
  rw [lookup_ofDocuments, List.lookup_eq_some_iff] at hlookup
  obtain ⟨front, back, hentries, -⟩ := hlookup
  obtain ⟨document, hdocument, hmem⟩ :=
    List.mem_flatMap.mp (hentries ▸ List.mem_append_right front List.mem_cons_self)
  obtain ⟨entry, hentry, hrecord⟩ := List.mem_filterMap.mp hmem
  obtain ⟨own, -, hown⟩ := Option.map_eq_some_iff.mp hrecord
  obtain ⟨-, rfl⟩ := Prod.mk.inj hown
  exact (Node.hasBase_of_mem_tree (List.mem_of_mem_filter hentry)).hash_notMem
    (hash_notMem_logicalUri (hplain document hdocument) document)

end SpecForm.Store
