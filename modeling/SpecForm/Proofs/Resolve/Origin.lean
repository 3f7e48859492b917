import SpecForm.Proofs.Resolve.Notes
import SpecForm.Proofs.Store.Mappings

/-!
# Nodes and their origins

A key names a node of a loaded document, the origin of every node that has the key.  What
was read in the document has the value of its origin.  A copy that was made under the notes
of references may differ from it in the notes, and in nothing else; so beneath a copy, too,
everything but the notes has the value of its origin.  All that following references leads
to is of this kind.
-/

namespace SpecForm

theorem Node.member?_value_of_has {node : Node} {name : String} (h : node.has name) :
    node.value.member? name = some (node.step name).value := by
  obtain ⟨members, hmembers⟩ := isObject_iff.mp (isObject_of_has h)
  rw [has, hmembers] at h
  obtain ⟨value, hvalue⟩ := Option.isSome_iff_exists.mp h
  have hlookup : members.lookup name = some value := hvalue
  rw [value_step, hmembers, hvalue, Json.Pointer.step?, hlookup, Option.getD_some]

namespace Store

variable {store : Store} {documents : List (String × Json)} {node other reference : Node}
  {key : Key} {name token : String}

def keyed? (store : Store) (key : Key) : Option Node :=
  store.documents[key.1]?.map fun root => ⟨root.document, key.2⟩

/-- A node with a key has the value of its origin. -/
def Faithful (store : Store) (node : Node) : Prop :=
  ∀ key, node.key? = some key → ∃ origin, store.keyed? key = some origin ∧
    node.value = origin.value

/-- A node with a key has the members of its origin, apart from the notes. -/
def Mirrors (store : Store) (node : Node) : Prop :=
  ∀ key, node.key? = some key → ∃ origin, store.keyed? key = some origin ∧
    ∀ name ∉ Node.noteNames, node.value.member? name = origin.value.member? name

theorem keyed?_child {origin : Node} (h : store.keyed? key = some origin) (token : String) :
    store.keyed? (key.1, Json.Pointer.child key.2 token) = some (origin.step token) := by
  obtain ⟨root, hroot, rfl⟩ := Option.map_eq_some_iff.mp h
  rw [keyed?, hroot]
  rfl

/-! ## Faithful nodes -/

namespace Faithful

theorem of_key?_eq_none (h : node.key? = none) : store.Faithful node := fun _ hkey => by
  rw [h] at hkey
  cases hkey

theorem of_document {root : Node} (horderly : store.Orderly) (hroot : root ∈ store.documents)
    (h : node.document = root.document) : store.Faithful node := by
  intro key hkey
  obtain ⟨i, hi⟩ := List.mem_iff_getElem?.mp hroot
  rw [Node.key?, h, (horderly.numbered hi).1, Option.some.injEq] at hkey
  subst hkey
  exact ⟨⟨root.document, node.pointer⟩, by rw [keyed?, hi]; rfl, by rw [← h]⟩

theorem mirrors (h : store.Faithful node) : store.Mirrors node := by
  intro key hkey
  obtain ⟨origin, horigin, hvalue⟩ := h key hkey
  exact ⟨origin, horigin, fun name _ => by rw [hvalue]⟩

theorem step (h : store.Faithful node) (token : String) : store.Faithful (node.step token) := by
  intro key hkey
  rw [Node.key?_step, Option.map_eq_some_iff] at hkey
  obtain ⟨own, hown, rfl⟩ := hkey
  obtain ⟨origin, horigin, hvalue⟩ := h own hown
  exact ⟨origin.step token, keyed?_child horigin token, by
    rw [Node.value_step, Node.value_step, hvalue]⟩

theorem of_mem_entries {entry : String × Node} (h : store.Faithful node)
    (hentry : entry ∈ node.entries) : store.Faithful entry.2 := by
  obtain ⟨name, -, rfl⟩ := List.mem_map.mp hentry
  exact h.step name

theorem of_mem_items {item : Node} (h : store.Faithful node) (hitem : item ∈ node.items) :
    store.Faithful item := by
  obtain ⟨token, rfl⟩ := Node.exists_step_of_mem_items hitem
  exact h.step token

theorem of_get? {uri : String} (h : (ofDocuments documents).get? uri = some node)
    (hother : other.document = node.document) : (ofDocuments documents).Faithful other := by
  obtain ⟨root, hroot, hmem⟩ := exists_mappings_of_get? h
  exact of_document (Orderly.ofDocuments documents) hroot
    (hother.trans (within_of_mem_mappings hmem).exists_path.1)

end Faithful

/-! ## Copies -/

namespace Mirrors

theorem overlay (h : store.Mirrors node) (reference : Node) :
    store.Mirrors (reference.overlay node) := by
  intro key hkey
  rw [Node.key?_overlay] at hkey
  obtain ⟨origin, horigin, hmember⟩ := h key hkey
  refine ⟨origin, horigin, fun name hname => ?_⟩
  rw [← hmember name hname]
  by_cases hobject : node.isObject
  · obtain ⟨members, hmembers⟩ := Node.isObject_iff.mp hobject
    rw [Node.value_overlay hmembers, hmembers, Json.member?, Json.member?, Node.lookup_noted,
      if_neg hname]
  · rw [Node.overlay_of_not_isObject hobject]

theorem of_member? {child : Node} (h : store.Mirrors node) (hname : name ∉ Node.noteNames)
    (hchild : node.member? name = some child) : store.Faithful child := by
  obtain ⟨hhas, rfl⟩ := Node.member?_eq_some_iff.mp hchild
  intro key hkey
  rw [Node.key?_step, Option.map_eq_some_iff] at hkey
  obtain ⟨own, hown, rfl⟩ := hkey
  obtain ⟨origin, horigin, hmember⟩ := h own hown
  refine ⟨origin.step name, keyed?_child horigin name, ?_⟩
  have horiginHas : origin.has name := by rwa [Node.has, ← hmember name hname]
  have hvalue := hmember name hname
  rw [Node.member?_value_of_has hhas, Node.member?_value_of_has horiginHas] at hvalue
  exact Option.some.inj hvalue

theorem member?_congr (h : store.Mirrors node) (h' : store.Mirrors other)
    (hkey : node.key? = some key) (hkey' : other.key? = some key) (hname : name ∉ Node.noteNames) :
    node.value.member? name = other.value.member? name := by
  obtain ⟨origin, horigin, hmember⟩ := h key hkey
  obtain ⟨origin', horigin', hmember'⟩ := h' key hkey'
  obtain rfl := Option.some.inj (horigin.symm.trans horigin')
  rw [hmember name hname, hmember' name hname]

end Mirrors

end Store

/-! ## Following references -/

namespace Resolver

variable {resolver : Resolver} {documents : List (String × Json)} {node found : Node}
  {text base target fragment : String} {kind : Node.RefKind} {scope : List String}

theorem document_of_hopInside (h : resolver.hopInside target fragment = .found node) :
    ∃ document, resolver.store.get? target = some document ∧
      node.document = document.document := by
  unfold hopInside at h
  cases hdocument : resolver.store.get? target with
  | none => simp [hdocument] at h
  | some document =>
      refine ⟨document, rfl, ?_⟩
      simp only [hdocument] at h
      split at h
      · cases h
      · rename_i inside hinside
        split at h
        · cases h
        · obtain rfl := Hop.found.inj h
          split at hinside
          · rw [Option.some.inj hinside]
          · split at hinside
            · exact Node.document_follow? hinside
            · cases hinside

theorem faithful_of_hop (hstore : resolver.store = .ofDocuments documents)
    (h : resolver.hop text kind base scope = .found node) : resolver.store.Faithful node := by
  rw [hstore]
  have hmapped : ∀ {uri : String}, resolver.store.get? uri = some node →
      (Store.ofDocuments documents).Faithful node := fun hget =>
    .of_get? (hstore ▸ hget) rfl
  unfold hop at h
  dsimp only at h
  split at h
  · cases h
  · rename_i target _
    split at h
    · rename_i redirected hredirected
      obtain rfl := Hop.found.inj h
      have hscope := (Option.ite_none_right_eq_some.mp hredirected).2
      obtain ⟨uri, -, hget⟩ := List.exists_of_findSome?_eq_some hscope
      exact hmapped hget
    · split at h
      · rename_i mapped hget
        obtain rfl := Hop.found.inj h
        exact hmapped hget
      · obtain ⟨document, hget, hsame⟩ := document_of_hopInside h
        exact .of_get? (hstore ▸ hget) hsame

theorem chase_induction {property : Node → Prop}
    (hhop : ∀ {text kind base scope node}, resolver.hop text kind base scope = .found node →
      property node)
    (hoverlay : ∀ (reference : Node) {target : Node}, property target →
      property (reference.overlay target))
    {limit : Nat} (h : resolver.chase limit text kind base scope = some found) :
    property found := by
  induction limit generalizing text kind base scope found with
  | zero =>
      unfold chase at h
      split at h
      · cases h
      · rename_i hfound
        obtain rfl := Option.some.inj h
        exact hhop hfound
      · simp at h
  | succ limit ih =>
      unfold chase at h
      split at h
      · cases h
      · rename_i hfound
        obtain rfl := Option.some.inj h
        exact hhop hfound
      · split at h
        · cases h
        · split at h
          · rename_i beyond _ _ _ _ _ heq _
            obtain rfl := Nat.succ.inj heq
            obtain ⟨next, hnext, rfl⟩ := Option.map_eq_some_iff.mp h
            exact hoverlay _ (ih hnext)
          · cases h

theorem resolve_induction {property : Node → Prop}
    (hhop : ∀ {text kind base scope node}, resolver.hop text kind base scope = .found node →
      property node)
    (hoverlay : ∀ (reference : Node) {target : Node}, property target →
      property (reference.overlay target))
    (hnode : property node) (h : resolver.resolve node = some found) : property found := by
  unfold resolve resolveInScope at h
  split at h
  · rwa [← Option.some.inj h]
  · cases h
  · obtain ⟨target, htarget, rfl⟩ := Option.map_eq_some_iff.mp h
    exact hoverlay _ (chase_induction hhop hoverlay htarget)

theorem mirrors_of_chase (hstore : resolver.store = .ofDocuments documents) {limit : Nat}
    (h : resolver.chase limit text kind base scope = some found) :
    resolver.store.Mirrors found :=
  chase_induction (fun hfound => (faithful_of_hop hstore hfound).mirrors)
    (fun reference _ htarget => htarget.overlay reference) h

theorem mirrors_of_resolve (hstore : resolver.store = .ofDocuments documents)
    (hnode : resolver.store.Mirrors node) (h : resolver.resolve node = some found) :
    resolver.store.Mirrors found :=
  resolve_induction (fun hfound => (faithful_of_hop hstore hfound).mirrors)
    (fun reference _ htarget => htarget.overlay reference) hnode h

theorem mirrors_of_resolveFragment (hstore : resolver.store = .ofDocuments documents)
    (h : resolver.resolveFragment fragment = some found) : resolver.store.Mirrors found :=
  mirrors_of_chase hstore h

end Resolver

end SpecForm
