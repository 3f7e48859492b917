import Mathlib.Logic.Equiv.Basic
import SpecForm.Proofs.Resolve.Renumbering
import SpecForm.Proofs.Store.Keys

/-!
# The order of independent documents

Documents that are mapped under different URIs may be registered in either order.  The two
stores have the same keys, and what a key is mapped to, what is recorded of a node and what a
reference leads to is the same in both, only that the two documents have changed numbers.
-/

namespace SpecForm

/-! ## Lookups -/

section

variable {α β : Type} [BEq α] [LawfulBEq α]

theorem lookup_eq_none_of_notMem {entries : List (α × β)} {key : α}
    (h : key ∉ entries.map Prod.fst) : entries.lookup key = none := by
  rw [List.lookup_eq_none_iff]
  intro entry hentry
  rw [bne_iff_ne]
  rintro rfl
  exact h (List.mem_map_of_mem hentry)

theorem lookup_append_comm {front back : List (α × β)}
    (h : ∀ key ∈ front.map Prod.fst, key ∉ back.map Prod.fst) (key : α) :
    (front ++ back).lookup key = (back ++ front).lookup key := by
  rw [List.lookup_append, List.lookup_append]
  by_cases hkey : key ∈ front.map Prod.fst
  · rw [lookup_eq_none_of_notMem (h key hkey), Option.or_none, Option.none_or]
  · rw [lookup_eq_none_of_notMem hkey, Option.or_none, Option.none_or]

theorem lookup_flatMap_exchange (entries : Node → List (α × β)) (documents : List Node)
    {first second : Node}
    (h : ∀ key ∈ (entries first).map Prod.fst, key ∉ (entries second).map Prod.fst) (key : α) :
    ((documents ++ [first, second]).flatMap entries).lookup key =
      ((documents ++ [second, first]).flatMap entries).lookup key := by
  simp only [List.flatMap_append, List.flatMap_cons, List.flatMap_nil, List.append_nil]
  rw [List.lookup_append, lookup_append_comm h, ← List.lookup_append]

end

namespace Store

/-! ## One document -/

def numbered (id : Nat) (source : String × Json) : Node :=
  .rootOf ⟨.loaded id, none, source.1, source.2⟩

/-- The URIs that a document is mapped under where none of them is taken. -/
def keysOf (source : String × Json) : List String := (mappings (numbered 0 source)).map Prod.fst

variable {store : Store} {source : String × Json} {uri : String}

theorem nextRoot_eq_numbered (store : Store) (source : String × Json) :
    store.nextRoot source.1 source.2 = numbered store.documents.length source := rfl

@[simp] theorem renumbered_numbered (number : Nat → Nat) (id : Nat) (source : String × Json) :
    (numbered id source).renumbered number = numbered (number id) source := rfl

theorem keys_mappings_numbered (id : Nat) (source : String × Json) :
    (mappings (numbered id source)).map Prod.fst = keysOf source := by
  rw [← renumbered_numbered (fun _ => id) 0 source, mappings_renumbered, List.map_map]
  rfl

theorem uri_mem_keysOf (source : String × Json) : source.1 ∈ keysOf source := List.mem_cons_self

theorem number_of_mem_records {id : Nat} {key : Key}
    (h : key ∈ (records (numbered id source)).map Prod.fst) : key.1 = id := by
  obtain ⟨⟨_, provenance⟩, hmem, rfl⟩ := List.mem_map.mp h
  obtain ⟨⟨node, outer⟩, hentry, hrecord⟩ := List.mem_filterMap.mp hmem
  obtain ⟨own, hown, hpair⟩ := Option.map_eq_some_iff.mp hrecord
  obtain ⟨rfl, -⟩ := Prod.mk.inj hpair
  have hdocument := (Node.exists_path_of_mem_tree (List.mem_of_mem_filter hentry)).1
  rw [Node.key?, hdocument] at hown
  exact (congrArg Prod.fst (Option.some.inj hown)).symm

theorem get?_register_of_notMem (h : uri ∉ keysOf source) :
    (store.register source.1 source.2).1.get? uri = store.get? uri := by
  cases hfresh : store.get? source.1 with
  | some node => rw [register_of_taken hfresh]
  | none =>
      rw [← keys_mappings_numbered store.documents.length] at h
      have hnone := lookup_eq_none_of_notMem h
      rw [get?_register hfresh]
      exact (congrArg (store.get? uri).or hnone).trans Option.or_none

/-! ## Two documents -/

variable {documents : List (String × Json)} {first second : String × Json}

theorem ofDocuments_pair (documents : List (String × Json)) (first second : String × Json) :
    ofDocuments (documents ++ [first, second]) =
      (((ofDocuments documents).register first.1 first.2).1.register second.1 second.2).1 := by
  rw [← ofDocuments_concat, ← ofDocuments_concat, List.append_assoc]
  rfl

theorem ofDocuments_comm_of_taken {node : Node}
    (h : (ofDocuments documents).get? first.1 = some node) :
    ofDocuments (documents ++ [first, second]) = ofDocuments (documents ++ [second, first]) := by
  have hlater := (extends_register (ofDocuments documents) second.1 second.2).mapped h
  rw [ofDocuments_pair, ofDocuments_pair, register_of_taken h, register_of_taken hlater]

theorem documents_ofDocuments_pair (hdisjoint : ∀ key ∈ keysOf first, key ∉ keysOf second)
    (hfirst : (ofDocuments documents).get? first.1 = none)
    (hsecond : (ofDocuments documents).get? second.1 = none) :
    (ofDocuments (documents ++ [first, second])).documents =
      (ofDocuments documents).documents ++
        [numbered (ofDocuments documents).documents.length first,
          numbered ((ofDocuments documents).documents.length + 1) second] := by
  have hfresh : ((ofDocuments documents).register first.1 first.2).1.get? second.1 = none := by
    rw [get?_register_of_notMem fun hmem => hdisjoint _ hmem (uri_mem_keysOf second)]
    exact hsecond
  rw [ofDocuments_pair, documents_register_of_fresh hfresh, nextRoot_eq_numbered,
    documents_register_of_fresh hfirst, nextRoot_eq_numbered, List.length_append,
    List.append_assoc]
  rfl

theorem map_renumbered_documents {number : Nat → Nat}
    (h : ∀ i < (ofDocuments documents).documents.length, number i = i) :
    (ofDocuments documents).documents.map (Node.renumbered number) =
      (ofDocuments documents).documents := by
  refine (List.map_congr_left fun document hdocument => ?_).trans (List.map_id _)
  obtain ⟨i, hi, hidentity⟩ := (Orderly.ofDocuments documents).exists_number hdocument
  exact Node.renumbered_of_loaded hidentity (h i hi)

theorem renumbers_of_fresh (hdisjoint : ∀ key ∈ keysOf first, key ∉ keysOf second)
    (hfirst : (ofDocuments documents).get? first.1 = none)
    (hsecond : (ofDocuments documents).get? second.1 = none) {number : Equiv.Perm Nat}
    (hnumber : number = .swap (ofDocuments documents).documents.length
      ((ofDocuments documents).documents.length + 1)) :
    (∀ i < (ofDocuments documents).documents.length, number i = i) ∧
      (ofDocuments (documents ++ [first, second])).Renumbers number
        (ofDocuments (documents ++ [second, first])) := by
  have hfixed : ∀ i < (ofDocuments documents).documents.length, number i = i := by
    intro i hi
    rw [hnumber]
    exact Equiv.swap_apply_of_ne_of_ne (by omega) (by omega)
  have hpair := documents_ofDocuments_pair hdisjoint hfirst hsecond
  have hpair' := documents_ofDocuments_pair
    (fun key hkey hmem => hdisjoint key hmem hkey) hsecond hfirst
  have hrenumbered :
      (ofDocuments (documents ++ [first, second])).documents.map (Node.renumbered number) =
        (ofDocuments documents).documents ++
          [numbered ((ofDocuments documents).documents.length + 1) first,
            numbered (ofDocuments documents).documents.length second] := by
    rw [hpair, List.map_append, map_renumbered_documents hfixed, List.map_cons, List.map_cons,
      renumbered_numbered, renumbered_numbered, hnumber, Equiv.swap_apply_left,
      Equiv.swap_apply_right]
    rfl
  refine ⟨hfixed, ⟨fun uri => ?_, fun key => ?_⟩⟩
  · rw [get?_ofDocuments, get?_ofDocuments, hpair', ← lookup_mappings_renumbered, hrenumbered]
    refine lookup_flatMap_exchange mappings _ ?_ uri
    rw [keys_mappings_numbered, keys_mappings_numbered]
    exact fun key hkey hmem => hdisjoint key hmem hkey
  · have hrecords := lookup_records_renumbered number.injective
      (ofDocuments (documents ++ [first, second])).documents key
    rw [lookup_ofDocuments, lookup_ofDocuments, hpair', ← hrecords, hrenumbered]
    refine lookup_flatMap_exchange records _ (fun key hkey hmem => ?_) _
    have hsecond := number_of_mem_records hkey
    have hfirst := number_of_mem_records hmem
    omega

theorem exists_renumbering (documents : List (String × Json))
    (hdisjoint : ∀ key ∈ keysOf first, key ∉ keysOf second) :
    ∃ number : Equiv.Perm Nat,
      (∀ i < (ofDocuments documents).documents.length, number i = i) ∧
        (ofDocuments (documents ++ [first, second])).Renumbers number
          (ofDocuments (documents ++ [second, first])) := by
  cases hfirst : (ofDocuments documents).get? first.1 with
  | some node =>
      rw [ofDocuments_comm_of_taken hfirst]
      exact ⟨.refl Nat, fun _ _ => rfl, .refl _⟩
  | none =>
      cases hsecond : (ofDocuments documents).get? second.1 with
      | some node =>
          rw [ofDocuments_comm_of_taken hsecond]
          exact ⟨.refl Nat, fun _ _ => rfl, .refl _⟩
      | none => exact ⟨_, renumbers_of_fresh hdisjoint hfirst hsecond rfl⟩

/--
Over any documents that were registered before, let two documents have no URI in common that
they are mapped under.  Registered in the one order and in the other they give stores with the
same keys, and there are numbers for the documents, the same as before for those of them that
were there, such that both stores map each key to one node, record the same base and source of
each node, and resolve each text, read against any base in any scope, to one node.  The node of
the other store differs from that of the first in the number of its document, and in nothing
else: it has the URI that its document was read from, its pointer and its value.  This holds as
well where the URI of either document is taken already, or keys of theirs are.
-/
theorem register_comm (documents : List (String × Json)) (first second : String × Json)
    (hdisjoint : ∀ key ∈ keysOf first, key ∉ keysOf second) :
    let store := ofDocuments (documents ++ [first, second])
    let other := ofDocuments (documents ++ [second, first])
    ∃ number : Equiv.Perm Nat,
      (∀ i < (ofDocuments documents).documents.length, number i = i) ∧
      other.keys = store.keys ∧
      (∀ uri, other.get? uri = (store.get? uri).map (Node.renumbered number)) ∧
      (∀ node, other.provenance? (node.renumbered number) = store.provenance? node) ∧
      ∀ entry text base scope,
        (Resolver.new other entry).resolveReference text base scope =
          ((Resolver.new store entry).resolveReference text base scope).map
            (Node.renumbered number) := by
  intro store other
  obtain ⟨number, hfixed, hrenumbers⟩ := exists_renumbering documents hdisjoint
  refine ⟨number, hfixed, ?_, hrenumbers.mapped, hrenumbers.provenance?, ?_⟩
  · refine (Tidy.ofDocuments _).keys_congr (Tidy.ofDocuments _) fun uri => ?_
    rw [contains, contains, hrenumbers.mapped, Option.isSome_map]
  · intro entry
    have hstores : (Resolver.new store entry).store.Renumbers number
        (Resolver.new other entry).store := hrenumbers
    exact Resolver.resolveReference_renumbered hstores

theorem register_comm_anchor :
    let pets := ("https://x.test/pets.json",
      Json.object [("Pet", .object [("$ref", .string "owners.json#owner")])])
    let owners := ("https://x.test/owners.json",
      Json.object [("Owner", .object [("$anchor", .string "owner")])])
    let named (documents : List (String × Json)) :=
      ((Resolver.new (ofDocuments documents) "").resolveReference
        "https://x.test/pets.json#/Pet" "" []).map fun node =>
          (node.document.retrievalUri, node.pointer)
    (∀ key ∈ keysOf pets, key ∉ keysOf owners) ∧
      named [owners, pets] = named [pets, owners] ∧
      named [pets, owners] = some ("https://x.test/owners.json", "/Owner") := by
  intro pets owners named
  have hdisjoint : ∀ key ∈ keysOf pets, key ∉ keysOf owners := by decide +kernel
  obtain ⟨number, -, -, -, -, hresolve⟩ := register_comm [] pets owners hdisjoint
  refine ⟨hdisjoint, ?_, by decide +kernel⟩
  exact (congrArg _ (hresolve _ _ _ _)).trans (Option.map_map _ _ _)

end Store

end SpecForm
