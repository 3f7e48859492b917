import SpecForm.Proofs.Store.Indexing

/-!
# The list of keys

No URI is mapped twice, whatever documents are registered.  So the sorted list of the keys is
told by which URIs are mapped, in whatever order they were.
-/

namespace SpecForm.Store

def Tidy (store : Store) : Prop := (store.entries.map Prod.fst).Nodup

theorem mem_keys {store : Store} {uri : String} : uri ∈ store.keys ↔ store.contains uri := by
  rw [keys, List.mem_mergeSort, contains, get?, List.lookup_isSome_iff]
  simp

theorem pairwise_keys (store : Store) : store.keys.Pairwise (· ≤ ·) := by
  refine (List.pairwise_mergeSort (fun a b c => ?_) (fun a b => ?_) _).imp of_decide_eq_true
  · simpa using String.le_trans
  · simpa using String.le_total a b

namespace Tidy

variable {store other : Store}

theorem of_entries (h : store.Tidy) (hentries : other.entries = store.entries) : other.Tidy := by
  rw [Tidy, hentries]
  exact h

theorem bindUri (h : store.Tidy) (uri : String) (node : Node) : (store.bindUri uri node).Tidy := by
  unfold Store.bindUri
  split
  · exact h
  · rename_i hfree
    refine List.nodup_cons.mpr ⟨fun hmem => hfree ?_, h⟩
    rw [← mem_keys, keys, List.mem_mergeSort]
    exact hmem

theorem recordNode (h : store.Tidy) (node : Node) (provenance : Provenance) :
    (store.recordNode node provenance).Tidy := by
  unfold Store.recordNode record
  split
  · split
    · exact h
    · exact h.of_entries rfl
  · exact h

theorem bindAll (h : store.Tidy) (entries : List (String × Node)) :
    (store.bindAll entries).Tidy := by
  induction entries generalizing store with
  | nil => exact h
  | cons entry rest ih => exact ih (h.bindUri entry.1 entry.2)

theorem indexAll (h : store.Tidy) (source : String) (entries : List (Node × String)) :
    (store.indexAll source entries).Tidy := by
  induction entries generalizing store with
  | nil => exact h
  | cons entry rest ih =>
      rw [indexAll_cons, indexObject]
      simp only [bindId_snd, bindId_fst, bindAnchors_eq]
      exact ih (((h.bindAll _).recordNode _ _).bindAll _)

theorem register (h : store.Tidy) (uri : String) (root : Json) :
    (store.register uri root).1.Tidy := by
  cases hfresh : store.get? uri with
  | some node => rwa [register_of_taken hfresh]
  | none =>
      have henroll : (store.enroll (store.nextRoot uri root)).Tidy := h.of_entries rfl
      rw [register_eq_indexAll hfresh]
      exact ((henroll.bindUri _ _).bindUri _ _).indexAll _ _

theorem ofDocuments (documents : List (String × Json)) : (ofDocuments documents).Tidy :=
  ofDocuments_induction (P := Tidy) List.nodup_nil (fun _ uri root h => h.register uri root)
    documents

theorem nodup_keys (h : store.Tidy) : store.keys.Nodup :=
  (List.mergeSort_perm _ _).nodup_iff.mpr h

theorem keys_congr (h : store.Tidy) (h' : other.Tidy)
    (hsame : ∀ uri, other.contains uri = store.contains uri) : other.keys = store.keys := by
  refine List.Perm.eq_of_pairwise (fun _ _ _ _ => String.le_antisymm) (pairwise_keys other)
    (pairwise_keys store) ?_
  rw [List.perm_ext_iff_of_nodup h'.nodup_keys h.nodup_keys]
  intro uri
  rw [mem_keys, mem_keys, hsame]

end Tidy

end SpecForm.Store
