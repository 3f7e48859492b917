import SpecForm.Proofs.Document.Tree
import SpecForm.Proofs.Store.Growth

/-!
# What indexing a document adds

Registering a document is described without the walk that does it.  Bases are
found from the top down.  What is mapped is one list: the URI the document was
read from, its logical URI, and what its objects declare in the order of the
document; of two entries with one key the earlier counts, and entries of the old
store count before all of them.
-/

namespace SpecForm

namespace Node

def identifiers (node : Node) (outer : String) : List String :=
  match (node.string? "$id").bind (Uri.resolve? outer) with
  | some uri => [uri, Reference.withoutFragment uri]
  | none => []

def anchors (node : Node) (base : String) : List String :=
  (["$anchor", "$dynamicAnchor"].filterMap node.string?).map fun anchor => base ++ "#" ++ anchor

def declared (node : Node) (outer : String) : List (String × Node) :=
  (node.identifiers outer ++ node.anchors (node.baseUnder outer)).map (·, node)

/-- The objects at and beneath a node in the order of the document, each with the base
that it stands under. -/
def objects (node : Node) (outer : String) : List (Node × String) :=
  (node.tree outer).filter fun entry => entry.1.isObject

theorem baseUnder_of_not_isObject {node : Node} (h : ¬node.isObject) (outer : String) :
    node.baseUnder outer = outer := by
  have hnone : node.string? "$id" = none := by
    unfold isObject at h
    cases hv : node.value <;>
      simp_all [string?, Json.stringMember?, Json.member?, Json.isObject, Json.asObject?]
  rw [baseUnder, hnone]

theorem objects_of_isObject {node : Node} (h : node.isObject) (outer : String) :
    node.objects outer =
      (node, outer) :: node.children.flatMap (objects · (node.baseUnder outer)) := by
  rw [objects, tree_eq, List.filter_cons, if_pos h, List.filter_flatMap]
  rfl

theorem objects_of_not_isObject {node : Node} (h : ¬node.isObject) (outer : String) :
    node.objects outer = node.children.flatMap (objects · outer) := by
  rw [objects, tree_eq, List.filter_cons, if_neg h, List.filter_flatMap,
    baseUnder_of_not_isObject h]
  rfl

end Node

namespace Store

/-! ## One object -/

theorem bindId_snd (store : Store) (outer : String) (node : Node) :
    (store.bindId outer node).2 = node.baseUnder outer := by
  rw [bindId, Node.baseUnder]
  cases node.string? "$id" with
  | none => rfl
  | some id => cases hid : Uri.resolve? outer id <;> simp [hid]

def bindAll (store : Store) (entries : List (String × Node)) : Store :=
  entries.foldl (fun store entry => store.bindUri entry.1 entry.2) store

theorem get?_bindAll (store : Store) (entries : List (String × Node)) (uri : String) :
    (store.bindAll entries).get? uri = (store.get? uri).or (entries.lookup uri) := by
  induction entries generalizing store with
  | nil => simp [bindAll]
  | cons entry rest ih =>
      obtain ⟨key, node⟩ := entry
      have hcons : store.bindAll ((key, node) :: rest) =
          (store.bindUri key node).bindAll rest := rfl
      rw [hcons, ih, get?_bindUri, Option.or_assoc, List.lookup_cons]
      cases uri == key <;> rfl

theorem bindUri_bindUri (store : Store) (uri : String) (node : Node) :
    (store.bindUri uri node).bindUri uri node = store.bindUri uri node := by
  have htaken : (store.bindUri uri node).contains uri := by
    rw [contains, get?_bindUri]
    cases store.get? uri <;> simp
  rw [bindUri, if_pos htaken]

theorem bindId_fst (store : Store) (outer : String) (node : Node) :
    (store.bindId outer node).1 = store.bindAll ((node.identifiers outer).map (·, node)) := by
  rw [bindId, Node.identifiers]
  cases (node.string? "$id").bind (Uri.resolve? outer) with
  | none => rfl
  | some uri =>
      by_cases heq : Reference.withoutFragment uri = uri
      · simp [bindAll, heq, bindUri_bindUri]
      · simp [bindAll, heq]

theorem bindAnchors_eq (store : Store) (base : String) (node : Node) :
    store.bindAnchors base node = store.bindAll ((node.anchors base).map (·, node)) := by
  suffices ∀ (keywords : List String) (store : Store),
      keywords.foldl (fun store keyword =>
        match node.string? keyword with
        | some anchor => store.bindUri (base ++ "#" ++ anchor) node
        | none => store) store =
      store.bindAll (((keywords.filterMap node.string?).map
        fun anchor => base ++ "#" ++ anchor).map (·, node)) from this anchorKeywords store
  intro keywords
  induction keywords with
  | nil => exact fun _ => rfl
  | cons keyword keywords ih =>
      intro store
      rw [List.foldl_cons, ih, List.filterMap_cons]
      cases node.string? keyword <;> rfl

theorem get?_recordNode (store : Store) (node : Node) (provenance : Provenance)
    (uri : String) : (store.recordNode node provenance).get? uri = store.get? uri := by
  rw [recordNode]
  split
  · exact get?_record _ _ _ _
  · rfl

theorem origins_bindAll (store : Store) (entries : List (String × Node)) :
    (store.bindAll entries).origins = store.origins := by
  induction entries generalizing store with
  | nil => rfl
  | cons entry rest ih => exact (ih _).trans (origins_bindUri _ _ _)

theorem get?_indexObject (store : Store) (source outer uri : String) (node : Node) :
    (store.indexObject source outer node).1.get? uri =
      (store.get? uri).or ((node.declared outer).lookup uri) := by
  rw [indexObject]
  simp only [bindId_snd, bindId_fst, bindAnchors_eq, get?_bindAll, get?_recordNode]
  rw [Node.declared, List.map_append, List.lookup_append, Option.or_assoc]

theorem lookup_indexObject (store : Store) (source outer : String) (node : Node) (key : Key) :
    (store.indexObject source outer node).1.origins.lookup key =
      (store.origins.lookup key).or
        (if node.key? = some key then some ⟨node.baseUnder outer, source⟩ else none) := by
  rw [indexObject]
  simp only [bindId_snd, bindId_fst, bindAnchors_eq, origins_bindAll, recordNode]
  cases hkey : node.key? with
  | none => simp [origins_bindAll]
  | some own =>
      rw [lookup_record, origins_bindAll]
      by_cases hown : key = own
      · simp [hown]
      · simp [hown, Ne.symm hown]

/-! ## The walk -/

def indexAll (store : Store) (source : String) (entries : List (Node × String)) : Store :=
  entries.foldl (fun store entry => (store.indexObject source entry.2 entry.1).1) store

theorem indexAll_cons (store : Store) (source : String) (entry : Node × String)
    (rest : List (Node × String)) :
    store.indexAll source (entry :: rest) =
      (store.indexObject source entry.2 entry.1).1.indexAll source rest := rfl

def objectsAhead (pending : List (Node × String)) : List (Node × String) :=
  pending.flatMap fun entry => entry.1.objects entry.2

def keysAhead (pending : List (Node × String)) : List Key :=
  (objectsAhead pending).filterMap fun entry => entry.1.key?

theorem objectsAhead_children (node : Node) (base : String) (rest : List (Node × String)) :
    objectsAhead (node.children.map (·, base) ++ rest) =
      node.children.flatMap (Node.objects · base) ++ objectsAhead rest := by
  simp [objectsAhead, List.flatMap_map]

theorem objectsAhead_of_isObject {node : Node} (h : node.isObject) (outer : String)
    (rest : List (Node × String)) :
    objectsAhead ((node, outer) :: rest) = (node, outer) ::
      objectsAhead (node.children.map (·, node.baseUnder outer) ++ rest) := by
  rw [objectsAhead_children, objectsAhead, List.flatMap_cons,
    Node.objects_of_isObject h, List.cons_append]
  rfl

theorem objectsAhead_of_not_isObject {node : Node} (h : ¬node.isObject) (outer : String)
    (rest : List (Node × String)) :
    objectsAhead ((node, outer) :: rest) =
      objectsAhead (node.children.map (·, outer) ++ rest) := by
  rw [objectsAhead_children, objectsAhead, List.flatMap_cons,
    Node.objects_of_not_isObject h]
  rfl

theorem keysAhead_of_isObject {node : Node} (h : node.isObject) (outer : String)
    (rest : List (Node × String)) :
    keysAhead ((node, outer) :: rest) = node.key?.toList ++
      keysAhead (node.children.map (·, node.baseUnder outer) ++ rest) := by
  rw [keysAhead, keysAhead, objectsAhead_of_isObject h, List.filterMap_cons]
  cases node.key? <;> rfl

/--
Where no key lies ahead twice and none has been seen, the walk skips nothing, and
takes up the objects ahead in the order of the document.
-/
theorem indexNodes_eq_indexAll (source : String) (store : Store) (seen : List Key)
    (pending : List (Node × String)) (hnodup : (keysAhead pending).Nodup)
    (hseen : ∀ key ∈ keysAhead pending, key ∉ seen) :
    indexNodes source store seen pending = store.indexAll source (objectsAhead pending) := by
  fun_induction indexNodes source store seen pending with
  | case1 store seen => rfl
  | case2 store seen node base rest hobject hskip ih =>
      rw [keysAhead_of_isObject hobject] at hseen
      cases hkey : node.key? with
      | none => simp [hkey] at hskip
      | some key =>
          have hmem : key ∈ seen := by simpa [hkey] using hskip
          exact absurd hmem (hseen key (by simp [hkey]))
  | case3 store seen node base rest hobject hskip indexed ih =>
      have hbase : indexed.2 = node.baseUnder base := bindId_snd store base node
      rw [hbase] at ih ⊢
      rw [keysAhead_of_isObject hobject] at hnodup hseen
      obtain ⟨-, hrest, hdisjoint⟩ := List.nodup_append.mp hnodup
      rw [objectsAhead_of_isObject hobject]
      refine ih hrest fun key hkey hmem => ?_
      rcases List.mem_append.mp hmem with hown | hold
      · exact hdisjoint key hown key hkey rfl
      · exact hseen key (List.mem_append_right _ hkey) hold
  | case4 store seen node base rest hobject ih =>
      rw [keysAhead, objectsAhead_of_not_isObject hobject] at hnodup hseen
      rw [objectsAhead_of_not_isObject hobject]
      exact ih hnodup hseen

theorem get?_indexAll (store : Store) (source : String) (entries : List (Node × String))
    (uri : String) :
    (store.indexAll source entries).get? uri = (store.get? uri).or
      ((entries.flatMap fun entry => entry.1.declared entry.2).lookup uri) := by
  induction entries generalizing store with
  | nil => simp [indexAll]
  | cons entry rest ih =>
      rw [indexAll_cons, ih, get?_indexObject, List.flatMap_cons, List.lookup_append, Option.or_assoc]

def recorded (source : String) (entries : List (Node × String)) : List (Key × Provenance) :=
  entries.filterMap fun entry =>
    entry.1.key?.map fun key => (key, ⟨entry.1.baseUnder entry.2, source⟩)

theorem lookup_indexAll (store : Store) (source : String) (entries : List (Node × String))
    (key : Key) :
    (store.indexAll source entries).origins.lookup key =
      (store.origins.lookup key).or ((recorded source entries).lookup key) := by
  induction entries generalizing store with
  | nil => simp [indexAll, recorded]
  | cons entry rest ih =>
      rw [indexAll_cons, ih, lookup_indexObject, Option.or_assoc]
      unfold recorded
      rw [List.filterMap_cons]
      cases hkey : entry.1.key? with
      | none => simp
      | some own =>
          by_cases hown : key = own
          · simp [hown]
          · simp [Ne.symm hown, List.lookup_cons, beq_eq_false_iff_ne.mpr hown]

/-! ## Registering -/

theorem key?_of_mem_tree {store : Store} {uri logical outer : String} {root : Json}
    {node : Node} (h : (node, outer) ∈ (store.nextRoot uri root).tree logical) :
    node.key? = some (store.documents.length, node.pointer) := by
  rw [Node.key?, (Node.exists_path_of_mem_tree h).1]
  rfl

theorem keysAhead_nextRoot (store : Store) (uri logical : String) (root : Json) :
    keysAhead [(store.nextRoot uri root, logical)] =
      ((store.nextRoot uri root).objects logical).map
        fun entry => (store.documents.length, entry.1.pointer) := by
  rw [keysAhead, objectsAhead, List.flatMap_cons, List.flatMap_nil, List.append_nil,
    ← List.filterMap_eq_map]
  apply List.filterMap_congr
  intro entry hentry
  exact key?_of_mem_tree (List.mem_of_mem_filter hentry)

theorem nodup_keysAhead_nextRoot (store : Store) (uri logical : String) (root : Json) :
    (keysAhead [(store.nextRoot uri root, logical)]).Nodup := by
  have hobjects : (((store.nextRoot uri root).objects logical).map
      fun entry => entry.1.pointer).Nodup :=
    (Node.nodup_pointers_tree _ _).sublist (List.filter_sublist.map _)
  have hkeys := hobjects.map fun first second (h : (store.documents.length, first) =
    (store.documents.length, second)) => (Prod.mk.inj h).2
  rw [List.map_map] at hkeys
  rw [keysAhead_nextRoot]
  exact hkeys

theorem register_eq_indexAll {store : Store} {uri : String} (h : store.get? uri = none)
    (root : Json) :
    (store.register uri root).1 =
      ((((store.enroll (store.nextRoot uri root)).bindUri uri (store.nextRoot uri root)).bindUri
        (logicalUri (store.nextRoot uri root) uri) (store.nextRoot uri root)).indexAll uri
          ((store.nextRoot uri root).objects (logicalUri (store.nextRoot uri root) uri))) := by
  rw [register_of_fresh h]
  dsimp only
  rw [indexNodes_eq_indexAll _ _ _ _ (nodup_keysAhead_nextRoot _ _ _ _) (by simp)]
  simp [objectsAhead]

theorem get?_register {store : Store} {uri : String} (h : store.get? uri = none)
    (root : Json) (key : String) :
    let document := store.nextRoot uri root
    let logical := logicalUri document uri
    (store.register uri root).1.get? key = (store.get? key).or
      (((uri, document) :: (logical, document) ::
        (document.objects logical).flatMap fun entry => entry.1.declared entry.2).lookup key) := by
  intro document logical
  have henroll : (store.enroll document).get? key = store.get? key := rfl
  rw [register_eq_indexAll h, get?_indexAll, get?_bindUri, get?_bindUri, henroll,
    List.lookup_cons, List.lookup_cons, Option.or_assoc, Option.or_assoc]
  cases key == uri <;> cases key == logical <;> rfl

theorem lookup_register {store : Store} {uri : String} (h : store.get? uri = none)
    (root : Json) (key : Key) :
    (store.register uri root).1.origins.lookup key = (store.origins.lookup key).or
      ((recorded uri ((store.nextRoot uri root).objects
        (logicalUri (store.nextRoot uri root) uri))).lookup key) := by
  rw [register_eq_indexAll h, lookup_indexAll, origins_bindUri, origins_bindUri]
  rfl

/-! ## Bases -/

theorem lookup_of_mem_nodup {α β : Type} [BEq α] [LawfulBEq α] {key : α} {value : β}
    {entries : List (α × β)} (hmem : (key, value) ∈ entries)
    (hnodup : (entries.map Prod.fst).Nodup) : entries.lookup key = some value := by
  obtain ⟨front, back, rfl⟩ := List.append_of_mem hmem
  rw [List.map_append, List.nodup_append] at hnodup
  refine List.lookup_eq_some_iff.mpr ⟨front, back, rfl, fun entry hentry => ?_⟩
  have hne := hnodup.2.2 entry.1 (List.mem_map_of_mem hentry) key (by simp)
  simpa using hne.symm

theorem keys_recorded (source : String) (pending : List (Node × String)) :
    (recorded source (objectsAhead pending)).map Prod.fst = keysAhead pending := by
  rw [recorded, keysAhead, List.map_filterMap]
  apply List.filterMap_congr
  intro entry _
  cases entry.1.key? <;> rfl

theorem lookup_recorded_nextRoot {store : Store} {uri logical base : String} {root : Json}
    {node : Node} (hbase : (store.nextRoot uri root).HasBase logical node base)
    (hobject : node.isObject) :
    (recorded uri ((store.nextRoot uri root).objects logical)).lookup
      (store.documents.length, node.pointer) = some ⟨base, uri⟩ := by
  obtain ⟨outer, hmem, rfl⟩ := hbase.exists_mem_tree
  have hobjects : objectsAhead [(store.nextRoot uri root, logical)] =
      (store.nextRoot uri root).objects logical := by
    simp [objectsAhead]
  apply lookup_of_mem_nodup
  · refine List.mem_filterMap.mpr ⟨(node, outer), List.mem_filter.mpr ⟨hmem, hobject⟩, ?_⟩
    rw [key?_of_mem_tree hmem]
    rfl
  · rw [← hobjects, keys_recorded]
    exact nodup_keysAhead_nextRoot _ _ _ _

theorem number_of_lookup_recorded {store : Store} {uri logical : String} {root : Json}
    {key : Key} {provenance : Provenance}
    (h : (recorded uri ((store.nextRoot uri root).objects logical)).lookup key =
      some provenance) : key.1 = store.documents.length := by
  obtain ⟨front, back, hentries, -⟩ := List.lookup_eq_some_iff.mp h
  have hmem : (key, provenance) ∈ recorded uri ((store.nextRoot uri root).objects logical) := by
    simp [hentries]
  obtain ⟨entry, hentry, hrecord⟩ := List.mem_filterMap.mp hmem
  rw [key?_of_mem_tree (List.mem_of_mem_filter hentry)] at hrecord
  obtain ⟨rfl, -⟩ := Prod.mk.inj (Option.some.inj hrecord)
  rfl

theorem lookup_register_of_lt {store : Store} {key : Key} (h : key.1 < store.documents.length)
    (uri : String) (root : Json) :
    (store.register uri root).1.origins.lookup key = store.origins.lookup key := by
  cases hfresh : store.get? uri with
  | some node => rw [register_of_taken hfresh]
  | none =>
      rw [lookup_register hfresh]
      apply Option.or_eq_left_of_none
      rw [Option.eq_none_iff_forall_ne_some]
      intro provenance hnew
      rw [number_of_lookup_recorded hnew] at h
      exact Nat.lt_irrefl _ h

def RecordsLoaded (store : Store) : Prop :=
  ∀ (key : Key) (provenance : Provenance), store.origins.lookup key = some provenance →
    key.1 < store.documents.length

theorem RecordsLoaded.register {store : Store} (h : store.RecordsLoaded) (uri : String)
    (root : Json) : (store.register uri root).1.RecordsLoaded := by
  cases hfresh : store.get? uri with
  | some node => rwa [register_of_taken hfresh]
  | none =>
      intro key provenance hlookup
      rw [lookup_register hfresh, Option.or_eq_some_iff] at hlookup
      rw [documents_register_of_fresh hfresh, List.length_append, List.length_singleton]
      rcases hlookup with hold | ⟨-, hnew⟩
      · have := h key provenance hold
        omega
      · rw [number_of_lookup_recorded hnew]
        exact Nat.lt_succ_self _

theorem recordsLoaded_ofDocuments (documents : List (String × Json)) :
    (ofDocuments documents).RecordsLoaded :=
  ofDocuments_induction (P := RecordsLoaded) (fun key provenance h => by simp [empty] at h)
    (fun _ uri root h => h.register uri root) documents

theorem provenance?_register {store : Store} {uri base : String}
    (hloaded : store.RecordsLoaded) (hfresh : store.get? uri = none) {root : Json} {node : Node}
    (hbase : (store.nextRoot uri root).HasBase
      (logicalUri (store.nextRoot uri root) uri) node base)
    (hobject : node.isObject) :
    (store.register uri root).1.provenance? node = some ⟨base, uri⟩ := by
  obtain ⟨outer, hmem, -⟩ := hbase.exists_mem_tree
  have hnone : store.origins.lookup (store.documents.length, node.pointer) = none := by
    rw [Option.eq_none_iff_forall_ne_some]
    intro provenance hold
    exact Nat.lt_irrefl _ (hloaded _ provenance hold)
  rw [provenance?, key?_of_mem_tree hmem, Option.bind_some, lookup_register hfresh, hnone,
    lookup_recorded_nextRoot hbase hobject]
  rfl

/-- Every object of a loaded document is recorded with the base that is found for it from
the top down. -/
def Based (store : Store) : Prop :=
  ∀ document ∈ store.documents, ∀ (node : Node) (base : String),
    document.HasBase (logicalUri document document.document.retrievalUri) node base →
    node.isObject → store.provenance? node = some ⟨base, document.document.retrievalUri⟩

theorem Based.register {store : Store} (h : store.Based) (hloaded : store.RecordsLoaded)
    (uri : String) (root : Json) : (store.register uri root).1.Based := by
  cases hfresh : store.get? uri with
  | some node => rwa [register_of_taken hfresh]
  | none =>
      intro document hdocument node base hbase hobject
      rcases (mem_documents_register hfresh).mp hdocument with hold | rfl
      · exact (extends_register store uri root).provenance?
          (h document hold node base hbase hobject)
      · exact provenance?_register hloaded hfresh hbase hobject

theorem based_ofDocuments (documents : List (String × Json)) : (ofDocuments documents).Based := by
  have hboth : (ofDocuments documents).RecordsLoaded ∧ (ofDocuments documents).Based :=
    ofDocuments_induction (P := fun store => store.RecordsLoaded ∧ store.Based)
      ⟨fun key provenance h => by simp [empty] at h, fun document h => by simp [empty] at h⟩
      (fun _ uri root h => ⟨h.1.register uri root, h.2.register h.1 uri root⟩) documents
  exact hboth.2

theorem Based.exists_base {store : Store} (h : store.Based) {document node : Node}
    (hdocument : document ∈ store.documents) (hwithin : document.Within node)
    (hobject : node.isObject) :
    ∃ base, store.provenance? node = some ⟨base, document.document.retrievalUri⟩ := by
  obtain ⟨base, hbase⟩ := hwithin.exists_hasBase
    (logicalUri document document.document.retrievalUri)
  exact ⟨base, h document hdocument node base hbase hobject⟩

theorem provenance?_register_of_loaded {store : Store} (horderly : store.Orderly)
    {document node : Node} (hdocument : document ∈ store.documents)
    (hnode : node.document = document.document) (uri : String) (root : Json) :
    (store.register uri root).1.provenance? node = store.provenance? node := by
  obtain ⟨i, hi, hidentity⟩ := horderly.exists_number hdocument
  have hkey : node.key? = some (i, node.pointer) := by
    rw [Node.key?, hnode, hidentity]
  rw [provenance?, provenance?, hkey, Option.bind_some, Option.bind_some,
    lookup_register_of_lt hi]

/--
After a fresh document is registered, each of its objects has one base, found from
the top down, and is recorded with it and with the document; and the store maps what
it mapped before, then the two URIs of the document, then what the objects declare in
the order of the document, the first entry for a key being the one that counts.
-/
theorem register_eq_declarations (documents : List (String × Json)) (uri : String)
    (root : Json) (hfresh : (ofDocuments documents).get? uri = none) :
    let store := ofDocuments documents
    let document := store.nextRoot uri root
    let logical := logicalUri document uri
    let after := (store.register uri root).1
    (∀ node, document.Within node → node.isObject →
      ∃ base, (∀ other, document.HasBase logical node other ↔ other = base) ∧
        after.provenance? node = some ⟨base, uri⟩) ∧
    (∀ key, after.get? key = (store.get? key).or
      (((uri, document) :: (logical, document) ::
        (document.objects logical).flatMap fun entry => entry.1.declared entry.2).lookup key)) := by
  intro store document logical after
  have hprovenance : ∀ {node : Node} {base : String}, document.HasBase logical node base →
      node.isObject → after.provenance? node = some ⟨base, uri⟩ :=
    provenance?_register (recordsLoaded_ofDocuments documents) hfresh
  constructor
  · intro node hwithin hobject
    obtain ⟨base, hbase⟩ := hwithin.exists_hasBase logical
    have hfound := hprovenance hbase hobject
    refine ⟨base, fun other => ⟨fun hother => ?_, fun heq => heq ▸ hbase⟩, hfound⟩
    have hsame := (hprovenance hother hobject).symm.trans hfound
    exact congrArg Provenance.base (Option.some.inj hsame)
  · exact get?_register hfresh root

theorem register_eq_declarations_nested :
    let uri := "https://x.test/api/root.json"
    let root := Json.object [("Pet", .object [("$id", .string "pets/pet.json"),
      ("tags", .array [.object [("$anchor", .string "tag")]])])]
    let store := ofDocuments [("https://x.test/api/first.json", .object [])]
    let after := (store.register uri root).1
    store.get? uri = none ∧
    after.provenance? ((store.nextRoot uri root).step "Pet") =
      some ⟨"https://x.test/api/pets/pet.json", uri⟩ ∧
    (after.get? "https://x.test/api/pets/pet.json#tag").map Node.pointer =
      some "/Pet/tags/0" := by
  intro uri root store after
  have hfresh : store.get? uri = none := Option.isNone_iff_eq_none.mp (by decide +kernel)
  obtain ⟨hbases, hmapped⟩ := register_eq_declarations _ uri root hfresh
  have hchild : (store.nextRoot uri root).step "Pet" ∈ (store.nextRoot uri root).children :=
    Node.step_mem_children (rfl : (store.nextRoot uri root).value = root) (by decide +kernel)
  obtain ⟨base, hbase, hfound⟩ := hbases _ (.child .root hchild) (by decide +kernel)
  have hown := (hbase _).mp (.child .root hchild)
  refine ⟨hfresh, ?_, ?_⟩
  · rw [hfound, ← hown]
    decide +kernel
  · rw [hmapped]
    decide +kernel

end Store

end SpecForm
