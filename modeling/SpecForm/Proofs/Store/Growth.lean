import Mathlib.Data.List.Nodup
import SpecForm.Document.Index

/-!
# Growth of stores

Documents are registered, nodes are mapped and nodes are indexed, in any order.
Every such call at most adds to a store: what is mapped stays mapped to the same
node, what is recorded stays recorded, and documents are only appended.  At any
time the documents are numbered in the order of loading, and each is found under
the URI that it was read from.
-/

namespace SpecForm.Store

/-! ## What writing leaves alone -/

/-- What is mapped or recorded stays so, and documents are only appended. -/
structure Extends (before after : Store) : Prop where
  mapped : ∀ {uri : String} {node : Node}, before.get? uri = some node →
    after.get? uri = some node
  recorded : ∀ {key : Key} {provenance : Provenance},
    before.origins.lookup key = some provenance →
    after.origins.lookup key = some provenance
  documents : before.documents <+: after.documents

namespace Extends

variable {first second third : Store}

theorem refl (store : Store) : store.Extends store :=
  ⟨id, id, List.prefix_refl _⟩

theorem trans (h : first.Extends second) (h' : second.Extends third) :
    first.Extends third :=
  ⟨h'.mapped ∘ h.mapped, h'.recorded ∘ h.recorded, h.documents.trans h'.documents⟩

theorem provenance? (h : first.Extends second) {node : Node} {provenance : Provenance}
    (hnode : first.provenance? node = some provenance) :
    second.provenance? node = some provenance := by
  obtain ⟨key, hkey, hlookup⟩ := Option.bind_eq_some_iff.mp hnode
  exact Option.bind_eq_some_iff.mpr ⟨key, hkey, h.recorded hlookup⟩

theorem documents_getElem? (h : first.Extends second) {i : Nat} {root : Node}
    (hroot : first.documents[i]? = some root) : second.documents[i]? = some root := by
  obtain ⟨hi, -⟩ := List.getElem?_eq_some_iff.mp hroot
  obtain ⟨added, hadded⟩ := h.documents
  rw [← hadded, List.getElem?_append_left hi, hroot]

end Extends

structure Annotates (before after : Store) : Prop extends before.Extends after where
  same : after.documents = before.documents

namespace Annotates

variable {first second third : Store}

theorem refl (store : Store) : store.Annotates store :=
  ⟨.refl store, rfl⟩

theorem trans (h : first.Annotates second) (h' : second.Annotates third) :
    first.Annotates third :=
  ⟨h.toExtends.trans h'.toExtends, h'.same.trans h.same⟩

end Annotates

theorem annotates_bindUri (store : Store) (uri : String) (node : Node) :
    store.Annotates (store.bindUri uri node) where
  mapped h := by simp [get?_bindUri, h]
  recorded h := by simpa using h
  documents := by simp
  same := by simp

theorem annotates_record (store : Store) (key : Key) (provenance : Provenance) :
    store.Annotates (store.record key provenance) where
  mapped h := by simpa using h
  recorded h := by simp [lookup_record, h]
  documents := by simp
  same := by simp

theorem annotates_adopt (store : Store) (node : Node) :
    store.Annotates (store.adopt node).1 := by
  unfold adopt
  split
  · exact .refl store
  · exact .refl store
  · exact ⟨⟨id, id, List.prefix_refl _⟩, rfl⟩

theorem annotates_insert (store : Store) (uri : String) (node : Node) :
    store.Annotates (store.insert uri node) := by
  unfold insert
  split
  · exact .refl store
  · exact (annotates_adopt store node).trans (annotates_bindUri _ _ _)

/-! ## What indexing leaves alone -/

theorem annotates_bindId (store : Store) (base : String) (node : Node) :
    store.Annotates (store.bindId base node).1 := by
  unfold bindId
  split
  · exact .refl store
  · have hfirst := annotates_bindUri store
    dsimp only
    split
    · exact hfirst _ node
    · exact (hfirst _ node).trans (annotates_bindUri _ _ _)

theorem annotates_bindAnchors (store : Store) (base : String) (node : Node) :
    store.Annotates (store.bindAnchors base node) := by
  unfold bindAnchors
  induction anchorKeywords generalizing store with
  | nil => exact .refl store
  | cons keyword keywords ih =>
      rw [List.foldl_cons]
      refine Annotates.trans ?_ (ih _)
      split
      · exact annotates_bindUri _ _ _
      · exact .refl store

theorem annotates_recordNode (store : Store) (node : Node) (provenance : Provenance) :
    store.Annotates (store.recordNode node provenance) := by
  unfold recordNode
  split
  · exact annotates_record _ _ _
  · exact .refl store

theorem annotates_indexObject (store : Store) (source base : String) (node : Node) :
    store.Annotates (store.indexObject source base node).1 :=
  ((annotates_bindId store base node).trans (annotates_recordNode _ _ _)).trans
    (annotates_bindAnchors _ _ _)

theorem annotates_indexNodes (source : String) (store : Store) (seen : List Key)
    (pending : List (Node × String)) :
    store.Annotates (indexNodes source store seen pending) := by
  fun_induction indexNodes source store seen pending with
  | case1 store => exact .refl store
  | case2 store seen node base rest hobject hseen ih => exact ih
  | case3 store seen node base rest hobject hseen indexed ih =>
      exact (annotates_indexObject store source base node).trans ih
  | case4 store seen node base rest hobject ih => exact ih

theorem annotates_index (store : Store) (node : Node) (base source : String) :
    store.Annotates (store.index node base source) :=
  (annotates_adopt store node).trans (annotates_indexNodes _ _ _ _)

/-! ## Registering -/

def nextRoot (store : Store) (uri : String) (root : Json) : Node :=
  .rootOf ⟨.loaded store.documents.length, none, uri, root⟩

def enroll (store : Store) (document : Node) : Store :=
  { store with documents := store.documents ++ [document] }

theorem extends_enroll (store : Store) (document : Node) :
    store.Extends (store.enroll document) :=
  ⟨id, id, List.prefix_append _ _⟩

theorem register_of_taken {store : Store} {uri : String} {node : Node}
    (h : store.get? uri = some node) (root : Json) :
    store.register uri root = (store, node) := by
  simp [register, h]

theorem register_of_fresh {store : Store} {uri : String} (h : store.get? uri = none)
    (root : Json) :
    store.register uri root =
      (indexNodes uri
        (((store.enroll (store.nextRoot uri root)).bindUri uri (store.nextRoot uri root)).bindUri
          (logicalUri (store.nextRoot uri root) uri) (store.nextRoot uri root))
        [] [(store.nextRoot uri root, logicalUri (store.nextRoot uri root) uri)],
      store.nextRoot uri root) := by
  simp [register, h, enroll, nextRoot]

theorem annotates_register {store : Store} {uri : String} (h : store.get? uri = none)
    (root : Json) :
    ((store.enroll (store.nextRoot uri root)).bindUri uri (store.nextRoot uri root)).Annotates
      (store.register uri root).1 := by
  rw [register_of_fresh h]
  exact (annotates_bindUri _ _ _).trans (annotates_indexNodes _ _ _ _)

theorem extends_register (store : Store) (uri : String) (root : Json) :
    store.Extends (store.register uri root).1 := by
  cases h : store.get? uri with
  | some node =>
      rw [register_of_taken h]
      exact .refl store
  | none =>
      exact ((extends_enroll _ _).trans (annotates_bindUri _ _ _).toExtends).trans
        (annotates_register h root).toExtends

theorem get?_register_of_fresh {store : Store} {uri : String} (h : store.get? uri = none)
    (root : Json) :
    (store.register uri root).1.get? uri = some (store.nextRoot uri root) := by
  apply (annotates_register h root).mapped
  have henroll : (store.enroll (store.nextRoot uri root)).get? uri = none := h
  simp [get?_bindUri, henroll]

theorem documents_register_of_fresh {store : Store} {uri : String}
    (h : store.get? uri = none) (root : Json) :
    (store.register uri root).1.documents = store.documents ++ [store.nextRoot uri root] := by
  rw [(annotates_register h root).same]
  simp [enroll]

theorem mem_documents_register {store : Store} {uri : String} (h : store.get? uri = none)
    {root : Json} {document : Node} :
    document ∈ (store.register uri root).1.documents ↔
      document ∈ store.documents ∨ document = store.nextRoot uri root := by
  rw [documents_register_of_fresh h, List.mem_append, List.mem_singleton]

def ofDocuments (documents : List (String × Json)) : Store :=
  documents.foldl (fun store (uri, root) => (store.register uri root).1) empty

theorem ofDocuments_concat (documents : List (String × Json)) (uri : String) (root : Json) :
    ofDocuments (documents ++ [(uri, root)]) = ((ofDocuments documents).register uri root).1 := by
  simp [ofDocuments]

theorem ofDocuments_induction {P : Store → Prop} (hempty : P empty)
    (hregister : ∀ store uri root, P store → P (store.register uri root).1)
    (documents : List (String × Json)) : P (ofDocuments documents) := by
  suffices ∀ store, P store →
      P (documents.foldl (fun store (uri, root) => (store.register uri root).1) store) from
    this empty hempty
  induction documents with
  | nil => exact fun store h => h
  | cons document documents ih =>
      exact fun store h => ih _ (hregister store document.1 document.2 h)

theorem extends_ofDocuments_append (documents more : List (String × Json)) :
    (ofDocuments documents).Extends (ofDocuments (documents ++ more)) := by
  induction more generalizing documents with
  | nil => exact (List.append_nil documents).symm ▸ .refl _
  | cons next more ih =>
      obtain ⟨uri, root⟩ := next
      have hfirst : (ofDocuments documents).Extends (ofDocuments (documents ++ [(uri, root)])) := by
        rw [ofDocuments_concat]
        exact extends_register _ uri root
      have hrest := ih (documents ++ [(uri, root)])
      rw [List.append_assoc, List.singleton_append] at hrest
      exact hfirst.trans hrest

theorem nextRoot_mem_ofDocuments (uri : String) (root : Json) (rest : List (String × Json)) :
    empty.nextRoot uri root ∈ (ofDocuments ((uri, root) :: rest)).documents :=
  (extends_ofDocuments_append [(uri, root)] rest).documents.subset
    ((mem_documents_register rfl).mpr (.inr rfl))

/-! ## Order among documents -/

/-- Documents are numbered in the order of loading, and each is found under the URI
that it was read from. -/
structure Orderly (store : Store) : Prop where
  numbered : ∀ {i : Nat} {root : Node}, store.documents[i]? = some root →
    root.document.identity = .loaded i ∧ root.pointer = ""
  found : ∀ {root : Node}, root ∈ store.documents →
    store.get? root.document.retrievalUri = some root

namespace Orderly

theorem empty : Store.empty.Orderly :=
  ⟨by simp [Store.empty], by simp [Store.empty]⟩

theorem annotates {before after : Store} (h : before.Orderly)
    (ha : before.Annotates after) : after.Orderly where
  numbered hget := h.numbered (ha.same ▸ hget)
  found hmem := ha.mapped (h.found (ha.same ▸ hmem))

theorem register {store : Store} (h : store.Orderly) (uri : String) (root : Json) :
    (store.register uri root).1.Orderly := by
  cases hfresh : store.get? uri with
  | some node => rwa [register_of_taken hfresh]
  | none =>
      constructor
      · intro i node hget
        rw [documents_register_of_fresh hfresh root] at hget
        rcases Nat.lt_or_ge i store.documents.length with hi | hi
        · rw [List.getElem?_append_left hi] at hget
          exact h.numbered hget
        · rw [List.getElem?_append_right hi, List.getElem?_singleton] at hget
          obtain ⟨hz, hnode⟩ := Option.ite_none_right_eq_some.mp hget
          rw [Option.some.injEq] at hnode
          subst hnode
          obtain rfl : i = store.documents.length := by omega
          exact ⟨rfl, rfl⟩
      · intro node hmem
        rcases (mem_documents_register hfresh).mp hmem with hold | rfl
        · exact (extends_register store uri root).mapped (h.found hold)
        · exact get?_register_of_fresh hfresh root

theorem ofDocuments (documents : List (String × Json)) : (ofDocuments documents).Orderly :=
  ofDocuments_induction .empty (fun _ uri root h => h.register uri root) documents

theorem pointer_eq {store : Store} (h : store.Orderly) {root : Node}
    (hmem : root ∈ store.documents) : root.pointer = "" := by
  obtain ⟨i, hi⟩ := List.mem_iff_getElem?.mp hmem
  exact (h.numbered hi).2

theorem exists_number {store : Store} (h : store.Orderly) {root : Node}
    (hmem : root ∈ store.documents) :
    ∃ i < store.documents.length, root.document.identity = .loaded i := by
  obtain ⟨i, hi, rfl⟩ := List.mem_iff_getElem.mp hmem
  exact ⟨i, hi, (h.numbered (List.getElem?_eq_getElem hi)).1⟩

theorem nodup_retrievalUri {store : Store} (h : store.Orderly) :
    (store.documents.map fun root => root.document.retrievalUri).Nodup := by
  rw [List.nodup_iff_injective_getElem]
  intro ⟨i, hi⟩ ⟨j, hj⟩ heq
  rw [List.length_map] at hi hj
  simp only [List.getElem_map] at heq
  -- Both are what their URI is mapped to, and so have one number.
  have hsame : store.documents[i] = store.documents[j] := by
    have hfirst := h.found (List.getElem_mem hi)
    rw [heq, h.found (List.getElem_mem hj), Option.some.injEq] at hfirst
    exact hfirst.symm
  have hidentity := (h.numbered (List.getElem?_eq_getElem hi)).1
  rw [hsame, (h.numbered (List.getElem?_eq_getElem hj)).1, Identity.loaded.injEq] at hidentity
  exact Fin.ext hidentity.symm

end Orderly

/-! ## Calls -/

inductive Call where
  | register (uri : String) (root : Json)
  | insert (uri : String) (node : Node)
  | index (node : Node) (base source : String)

def perform (store : Store) : Call → Store
  | .register uri root => (store.register uri root).1
  | .insert uri node => store.insert uri node
  | .index node base source => store.index node base source

def ofCalls (calls : List Call) : Store := calls.foldl perform empty

theorem extends_perform (store : Store) (call : Call) : store.Extends (store.perform call) := by
  cases call with
  | register uri root => exact extends_register store uri root
  | insert uri node => exact (annotates_insert store uri node).toExtends
  | index node base source => exact (annotates_index store node base source).toExtends

theorem Orderly.perform {store : Store} (h : store.Orderly) (call : Call) :
    (store.perform call).Orderly := by
  cases call with
  | register uri root => exact h.register uri root
  | insert uri node => exact h.annotates (annotates_insert store uri node)
  | index node base source => exact h.annotates (annotates_index store node base source)

theorem extends_foldl_perform (store : Store) (calls : List Call) :
    store.Extends (calls.foldl perform store) := by
  induction calls generalizing store with
  | nil => exact .refl store
  | cons call calls ih => exact (extends_perform store call).trans (ih _)

theorem orderly_ofCalls (calls : List Call) : (ofCalls calls).Orderly := by
  suffices ∀ store : Store, store.Orderly → (calls.foldl perform store).Orderly from
    this empty .empty
  induction calls with
  | nil => exact fun store h => h
  | cons call calls ih => exact fun store h => ih _ (h.perform call)

/--
Over any calls, and at any point between them: no mapping and no record is ever
changed or removed, documents are only appended, the document at place `i` has
the number `i` and is a whole document, no two documents were read from one URI,
and each is found under the URI it was read from.
-/
theorem ofCalls_append_keeps (calls more : List Call) :
    let before := ofCalls calls
    let after := ofCalls (calls ++ more)
    (∀ uri node, before.get? uri = some node → after.get? uri = some node) ∧
    (∀ node provenance, before.provenance? node = some provenance →
      after.provenance? node = some provenance) ∧
    (∃ added, after.documents = before.documents ++ added) ∧
    (∀ (i : Nat) (root : Node), after.documents[i]? = some root →
      root.document.identity = .loaded i ∧ root.pointer = "") ∧
    (after.documents.map fun root => root.document.retrievalUri).Nodup ∧
    (∀ root ∈ after.documents, after.get? root.document.retrievalUri = some root) := by
  intro before after
  have hgrows : before.Extends after := by
    simpa [before, after, ofCalls, List.foldl_append] using
      extends_foldl_perform (ofCalls calls) more
  have horderly : after.Orderly := orderly_ofCalls (calls ++ more)
  obtain ⟨added, hadded⟩ := hgrows.documents
  refine ⟨fun _ _ => hgrows.mapped, fun _ _ => hgrows.provenance?, ⟨added, hadded.symm⟩,
    fun _ _ => horderly.numbered, horderly.nodup_retrievalUri, fun _ => horderly.found⟩

end SpecForm.Store
