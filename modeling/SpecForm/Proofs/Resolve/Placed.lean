import SpecForm.Proofs.Resolve.Origin

/-!
# Objects of the documents

All nodes that references lead to have the key of a place in a loaded document, a number and
the pointer of a path.  A node with a member that is no note stands for an object there, so
of the keys of such nodes there are no more than objects in the documents.
-/

namespace SpecForm

theorem Json.Pointer.child_ofTokens (path : List String) (token : String) :
    child (ofTokens path) token = ofTokens (path ++ [token]) := by
  rw [ofTokens, ofTokens, List.foldl_append, List.foldl_cons, List.foldl_nil]

namespace Node

variable {root node child : Node} {token name : String} {path : List String}

/-- The key of the node has the pointer of a path. -/
def Placed (node : Node) : Prop :=
  ∃ number path, node.key? = some (number, Json.Pointer.ofTokens path)

namespace Placed

theorem congr {other : Node} (h : node.Placed) (hkey : other.key? = node.key?) :
    other.Placed := by
  rwa [Placed, hkey]

theorem overlay (h : node.Placed) (reference : Node) : (reference.overlay node).Placed :=
  h.congr (key?_overlay reference node)

theorem step (h : node.Placed) (token : String) : (node.step token).Placed := by
  obtain ⟨number, path, hkey⟩ := h
  exact ⟨number, path ++ [token], by
    rw [key?_step, hkey, Option.map_some, Json.Pointer.child_ofTokens]⟩

theorem of_member? (h : node.Placed) (hchild : node.member? name = some child) :
    child.Placed := by
  obtain ⟨-, rfl⟩ := member?_eq_some_iff.mp hchild
  exact h.step name

theorem of_mem_entries {entry : String × Node} (h : node.Placed) (hentry : entry ∈ node.entries) :
    entry.2.Placed := by
  obtain ⟨name, -, rfl⟩ := List.mem_map.mp hentry
  exact h.step name

theorem of_mem_items (h : node.Placed) (hitem : child ∈ node.items) : child.Placed := by
  obtain ⟨token, rfl⟩ := exists_step_of_mem_items hitem
  exact h.step token

theorem of_follow? (h : node.Placed) (hfollow : node.follow? path = some child) :
    child.Placed := by
  induction path generalizing node with
  | nil =>
      obtain rfl : node = child := by simpa [follow?] using hfollow
      exact h
  | cons token rest ih =>
      obtain ⟨next, hnext, hrest⟩ := Option.bind_eq_some_iff.mp hfollow
      rw [eq_step_of_child? hnext] at hrest
      exact ih (h.step token) hrest

end Placed

/-! ## Places with values -/

theorem within_of_value_ne_null (hroot : root.pointer = "") (path : List String)
    (h : (⟨root.document, Json.Pointer.ofTokens path⟩ : Node).value ≠ .null) :
    root.Within ⟨root.document, Json.Pointer.ofTokens path⟩ := by
  induction path using List.reverseRecOn with
  | nil =>
      have hsame : (⟨root.document, Json.Pointer.ofTokens []⟩ : Node) = root := by
        cases root
        simp_all [Json.Pointer.ofTokens]
      rw [hsame]
      exact .root
  | append_singleton front token ih =>
      have hstep : (⟨root.document, Json.Pointer.ofTokens (front ++ [token])⟩ : Node) =
          step ⟨root.document, Json.Pointer.ofTokens front⟩ token := by
        rw [step, Json.Pointer.child_ofTokens]
      rw [hstep] at h ⊢
      refine .child (ih fun hnull => h ?_) (mem_children_of_step h)
      simp [value_step, hnull, Json.Pointer.step?]

theorem mem_nodes_self (node : Node) : node ∈ node.nodes := by
  rw [nodes_eq]
  exact List.mem_cons_self

theorem mem_nodes_of_children (h : node ∈ root.nodes) (hchild : child ∈ node.children) :
    child ∈ root.nodes := by
  induction root using nodes.induct with
  | case1 root ih =>
      rw [nodes_eq, List.mem_cons, List.mem_flatMap] at h ⊢
      right
      rcases h with rfl | ⟨below, hbelow, hmem⟩
      · exact ⟨child, hchild, mem_nodes_self child⟩
      · exact ⟨below, hbelow, ih below hbelow hmem⟩

theorem Within.mem_nodes (h : root.Within node) : node ∈ root.nodes := by
  induction h with
  | root => exact mem_nodes_self root
  | child _ hchild ih => exact mem_nodes_of_children ih hchild

end Node

/-! ## Following references -/

namespace Store

theorem Orderly.placed_of_within {store : Store} {root node : Node} (h : store.Orderly)
    (hroot : root ∈ store.documents) (hnode : root.Within node) : node.Placed := by
  obtain ⟨hdocument, path, hpointer, -⟩ := hnode.exists_path
  obtain ⟨i, hi⟩ := List.mem_iff_getElem?.mp hroot
  obtain ⟨hidentity, hempty⟩ := h.numbered hi
  exact ⟨i, path, by rw [Node.key?, hdocument, hidentity, hpointer, hempty, String.empty_append]⟩

theorem placed_of_get? {documents : List (String × Json)} {uri : String} {node : Node}
    (h : (ofDocuments documents).get? uri = some node) : node.Placed := by
  obtain ⟨root, hroot, hmem⟩ := exists_mappings_of_get? h
  exact (Orderly.ofDocuments documents).placed_of_within hroot (within_of_mem_mappings hmem)

end Store

namespace Resolver

variable {resolver : Resolver} {documents : List (String × Json)} {node found : Node}
  {text base fragment : String} {kind : Node.RefKind} {scope : List String}

theorem exists_follow?_of_hop (h : resolver.hop text kind base scope = .found node) :
    ∃ uri mapped path, resolver.store.get? uri = some mapped ∧
      mapped.follow? path = some node := by
  unfold hop at h
  dsimp only at h
  split at h
  · cases h
  · split at h
    · rename_i redirected hredirected
      obtain rfl := Hop.found.inj h
      have hscope := (Option.ite_none_right_eq_some.mp hredirected).2
      obtain ⟨uri, -, hget⟩ := List.exists_of_findSome?_eq_some hscope
      exact ⟨_, redirected, [], hget, rfl⟩
    · split at h
      · rename_i mapped hget
        obtain rfl := Hop.found.inj h
        exact ⟨_, mapped, [], hget, rfl⟩
      · unfold hopInside at h
        split at h
        · cases h
        · rename_i document hget
          dsimp only at h
          split at h
          · cases h
          · rename_i inside hinside
            split at h
            · cases h
            · obtain rfl := Hop.found.inj h
              split at hinside
              · exact ⟨_, document, [], hget, hinside⟩
              · exact ⟨_, document, _, hget, (Option.ite_none_right_eq_some.mp hinside).2⟩

theorem placed_of_hop (hstore : resolver.store = .ofDocuments documents)
    (h : resolver.hop text kind base scope = .found node) : node.Placed := by
  obtain ⟨uri, mapped, path, hget, hfollow⟩ := exists_follow?_of_hop h
  exact (Store.placed_of_get? (hstore ▸ hget)).of_follow? hfollow

theorem placed_of_resolve (hstore : resolver.store = .ofDocuments documents) (hnode : node.Placed)
    (h : resolver.resolve node = some found) : found.Placed :=
  resolve_induction (placed_of_hop hstore) (fun reference _ htarget => htarget.overlay reference)
    hnode h

theorem placed_of_resolveFragment (hstore : resolver.store = .ofDocuments documents)
    (h : resolver.resolveFragment fragment = some found) : found.Placed :=
  chase_induction (placed_of_hop hstore) (fun reference _ htarget => htarget.overlay reference) h

end Resolver

/-! ## Counting objects -/

namespace Store

variable {store : Store} {node : Node} {key : Key} {name : String}

def objects (store : Store) : List Node :=
  store.documents.flatMap fun root => root.nodes.filter Node.isObject

def objectKeys (store : Store) : List Key := store.objects.filterMap Node.key?

theorem length_objectKeys_le (store : Store) : store.objectKeys.length ≤ store.objects.length :=
  List.length_filterMap_le _ _

theorem mem_objectKeys_of_keyed? (horderly : store.Orderly) {origin : Node}
    (h : store.keyed? key = some origin) {path : List String}
    (hpath : key.2 = Json.Pointer.ofTokens path) (hobject : origin.isObject) :
    key ∈ store.objectKeys := by
  obtain ⟨root, hroot, rfl⟩ := Option.map_eq_some_iff.mp h
  obtain ⟨hidentity, hempty⟩ := horderly.numbered hroot
  have hvalue : (⟨root.document, Json.Pointer.ofTokens path⟩ : Node).value ≠ .null := by
    intro hnull
    rw [hpath] at hobject
    simp [Node.isObject, hnull, Json.isObject, Json.asObject?] at hobject
  have hwithin := Node.within_of_value_ne_null hempty path hvalue
  rw [← hpath] at hwithin
  refine List.mem_filterMap.mpr ⟨⟨root.document, key.2⟩, ?_, by rw [Node.key?, hidentity]⟩
  exact List.mem_flatMap.mpr ⟨root, List.mem_of_getElem? hroot,
    List.mem_filter.mpr ⟨hwithin.mem_nodes, hobject⟩⟩

theorem exists_objectKey_of_has (horderly : store.Orderly) (hplaced : node.Placed)
    (hmirrors : store.Mirrors node) (hhas : node.has name) (hname : name ∉ Node.noteNames) :
    ∃ key ∈ store.objectKeys, node.key? = some key := by
  obtain ⟨number, path, hkey⟩ := hplaced
  obtain ⟨origin, horigin, hmember⟩ := hmirrors _ hkey
  have horiginHas : origin.has name := by rwa [Node.has, ← hmember name hname]
  have hobject := Node.isObject_of_has horiginHas
  exact ⟨_, mem_objectKeys_of_keyed? horderly horigin rfl hobject, hkey⟩

end Store

end SpecForm
