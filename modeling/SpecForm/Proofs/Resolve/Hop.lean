import Mathlib.Data.List.Basic
import SpecForm.Document.Resolve

/-!
# One hop

A hop leads onward when the node that it finds is itself a reference.  Such a
node is found under the URI of a mapped node, at its root or by a pointer, so the
scope has no say in it, and the URI at which it is found tells both the node and
the base it is read against.  There are only as many such URIs as mapped ones
times the fragments that stand in the documents.
-/

namespace SpecForm

/-! ## The texts of a value -/

namespace Json

mutual

def texts : Json → List String
  | .string text => [text]
  | .array items => textsItems items
  | .object members => textsMembers members
  | _ => []

def textsItems : List Json → List String
  | [] => []
  | item :: rest => item.texts ++ textsItems rest

def textsMembers : List (String × Json) → List String
  | [] => []
  | (_, value) :: rest => value.texts ++ textsMembers rest

end

mutual

theorem length_texts_le (value : Json) : value.texts.length ≤ value.size := by
  match value with
  | .array items =>
      have := length_textsItems_le items
      simp only [texts, size]
      omega
  | .object members =>
      have := length_textsMembers_le members
      simp only [texts, size]
      omega
  | .null | .bool _ | .int _ | .float _ | .string _ => simp [texts, size]

theorem length_textsItems_le (items : List Json) :
    (textsItems items).length ≤ sizeItems items := by
  match items with
  | [] => simp [textsItems]
  | item :: rest =>
      have := length_texts_le item
      have := length_textsItems_le rest
      simp only [textsItems, sizeItems, List.length_append]
      omega

theorem length_textsMembers_le (members : List (String × Json)) :
    (textsMembers members).length ≤ sizeMembers members := by
  match members with
  | [] => simp [textsMembers]
  | (_, value) :: rest =>
      have := length_texts_le value
      have := length_textsMembers_le rest
      simp only [textsMembers, sizeMembers, List.length_append]
      omega

end

theorem texts_subset_of_lookup {members : List (String × Json)} {name : String} {value : Json}
    (h : members.lookup name = some value) : value.texts ⊆ (object members).texts := by
  rw [texts]
  induction members with
  | nil => simp at h
  | cons entry rest ih =>
      obtain ⟨key, first⟩ := entry
      rw [List.lookup_cons] at h
      rw [textsMembers]
      cases hk : name == key with
      | true =>
          obtain rfl : first = value := by simpa [hk] using h
          exact List.subset_append_left _ _
      | false =>
          rw [hk] at h
          exact List.Subset.trans (ih h) (List.subset_append_right _ _)

theorem texts_subset_of_getElem? {items : List Json} {i : Nat} {value : Json}
    (h : items[i]? = some value) : value.texts ⊆ (array items).texts := by
  rw [texts]
  induction items generalizing i with
  | nil => simp at h
  | cons first rest ih =>
      rw [textsItems]
      cases i with
      | zero =>
          obtain rfl : first = value := by simpa using h
          exact List.subset_append_left _ _
      | succ i =>
          rw [List.getElem?_cons_succ] at h
          exact List.Subset.trans (ih h) (List.subset_append_right _ _)

theorem texts_subset_of_step? {value next : Json} {token : String}
    (h : Pointer.step? value token = some next) : next.texts ⊆ value.texts := by
  match value with
  | .object members => exact texts_subset_of_lookup h
  | .array items =>
      obtain ⟨index, -, hget⟩ := Option.bind_eq_some_iff.mp h
      exact texts_subset_of_getElem? hget
  | .null | .bool _ | .int _ | .float _ | .string _ => simp [Pointer.step?] at h

theorem texts_subset_of_follow? {value last : Json} {tokens : List String}
    (h : Pointer.follow? value tokens = some last) : last.texts ⊆ value.texts := by
  induction tokens generalizing value with
  | nil =>
      obtain rfl : value = last := by simpa [Pointer.follow?] using h
      exact List.Subset.refl _
  | cons token rest ih =>
      obtain ⟨next, hstep, hrest⟩ := Option.bind_eq_some_iff.mp h
      exact List.Subset.trans (ih hrest) (texts_subset_of_step? hstep)

theorem texts_subset_of_eval? {pointer : String} {root value : Json}
    (h : Pointer.eval? pointer root = some value) : value.texts ⊆ root.texts := by
  unfold Pointer.eval? at h
  split at h
  · obtain rfl : root = value := by simpa using h
    exact List.Subset.refl _
  · split at h
    · exact texts_subset_of_follow? h
    · cases h

end Json

namespace Node

theorem texts_value_subset (node : Node) : node.value.texts ⊆ node.document.root.texts := by
  rw [value]
  cases h : Json.Pointer.eval? node.pointer node.document.root with
  | none => simp [Json.texts]
  | some value => exact Json.texts_subset_of_eval? h

theorem mem_texts_of_member? {value : Json} {name text : String}
    (h : value.member? name = some (.string text)) : text ∈ value.texts := by
  match value with
  | .object members => exact Json.texts_subset_of_lookup h (by simp [Json.texts])
  | .null | .bool _ | .int _ | .float _ | .string _ | .array _ => simp [Json.member?] at h

theorem mem_texts_of_role {node : Node} {text : String} {kind : RefKind}
    (h : node.role = .reference text kind) : text ∈ node.document.root.texts := by
  obtain ⟨keyword, -, hmember⟩ := exists_keyword_of_role h
  exact texts_value_subset node (mem_texts_of_member? hmember)

theorem role_ne_plain {node : Node} (h : node.isReference) : node.role ≠ .plain := by
  intro hrole
  unfold role at hrole
  dsimp only at hrole
  split at hrole
  · split at hrole <;> cases hrole
  · rename_i href
    split at hrole
    · split at hrole <;> cases hrole
    · rename_i hdynamic
      simp [isReference, has, href, hdynamic] at h

theorem document_child? {node next : Node} {token : String}
    (h : node.child? token = some next) : next.document = node.document := by
  have hstep : next = node.step token := by
    unfold child? member? at h
    split at h
    · simpa using (Option.ite_none_right_eq_some.mp h).2.symm
    · split at h
      · simpa using (Option.ite_none_right_eq_some.mp h).2.symm
      · cases h
    · cases h
  rw [hstep, step]

theorem document_follow? {node last : Node} {tokens : List String}
    (h : node.follow? tokens = some last) : last.document = node.document := by
  induction tokens generalizing node with
  | nil =>
      obtain rfl : node = last := by simpa [follow?] using h
      rfl
  | cons token rest ih =>
      obtain ⟨next, hchild, hrest⟩ := Option.bind_eq_some_iff.mp h
      exact (ih hrest).trans (document_child? hchild)

end Node

namespace Store

theorem mem_entries_of_get? {store : Store} {uri : String} {node : Node}
    (h : store.get? uri = some node) : (uri, node) ∈ store.entries := by
  rw [get?, List.lookup_eq_some_iff] at h
  obtain ⟨front, back, hentries, -⟩ := h
  simp [hentries]

def fragments (store : Store) : List String :=
  store.entries.flatMap fun (_, node) =>
    node.document.root.texts.map fun text => (Reference.split text).2

/-- The URIs at which references can be found, where the first fragment that is followed
is `first`. -/
def places (store : Store) (first : String) : List String :=
  store.entries.flatMap fun (key, _) =>
    (first :: store.fragments).map (Reference.withFragment key)

theorem length_fragments_le (store : Store) :
    store.fragments.length ≤
      store.entries.foldl (fun size (_, node) => size + node.document.root.size) 0 := by
  suffices ∀ (entries : List (String × Node)) (size : Nat),
      (entries.flatMap fun (_, node) =>
        node.document.root.texts.map fun text => (Reference.split text).2).length + size ≤
      entries.foldl (fun size (_, node) => size + node.document.root.size) size from
    this store.entries 0
  intro entries
  induction entries with
  | nil => simp
  | cons entry rest ih =>
      intro size
      have hrest := ih (size + entry.2.document.root.size)
      have htexts := Json.length_texts_le entry.2.document.root
      simp only [List.flatMap_cons, List.length_append, List.length_map,
        List.foldl_cons] at hrest ⊢
      omega

theorem length_places_le (store : Store) (first : String) :
    (store.places first).length ≤ store.hopBound := by
  have hlength : (store.places first).length =
      store.entries.length * (store.fragments.length + 1) := by
    simp [places, List.length_flatMap]
  rw [hlength, hopBound]
  exact Nat.mul_le_mul_left _ (Nat.succ_le_succ store.length_fragments_le)

end Store

namespace Resolver

/-! ## Where a hop leads -/

theorem hash_notMem_logicalBase (resolver : Resolver) (base : String) :
    '#' ∉ (resolver.logicalBase base).toList := by
  unfold logicalBase
  dsimp only
  split
  · exact Store.hash_notMem_logicalUri (Reference.hash_notMem_withoutFragment base) _
  · exact Reference.hash_notMem_withoutFragment base

theorem hash_notMem_of_targetUri? {resolver : Resolver} {file base target : String}
    (h : resolver.targetUri? file base = some target) : '#' ∉ target.toList := by
  unfold targetUri? at h
  dsimp only at h
  split at h
  · obtain rfl : resolver.logicalBase base = target := by simpa using h
    exact resolver.hash_notMem_logicalBase base
  · obtain ⟨uri, -, rfl⟩ := Option.map_eq_some_iff.mp h
    exact Reference.hash_notMem_withoutFragment uri

theorem of_hopInside_eq_onward {resolver : Resolver} {target fragment uri base : String}
    {node : Node} (h : resolver.hopInside target fragment = .onward uri node base) :
    uri = Reference.withFragment target fragment ∧ node.isReference ∧
      (fragment.isEmpty ∨ Json.Pointer.isPointer fragment) ∧
      ∃ document, resolver.store.get? target = some document ∧
        node.document = document.document := by
  unfold hopInside at h
  split at h
  · cases h
  · rename_i document hget
    dsimp only at h
    split at h
    · cases h
    · rename_i found hfound
      split at h
      · rename_i hreference
        simp only [Hop.onward.injEq] at h
        obtain ⟨rfl, rfl, -⟩ := h
        split at hfound
        · rename_i hempty
          obtain rfl : document = found := by simpa using hfound
          exact ⟨rfl, hreference, .inl hempty, document, hget, rfl⟩
        · obtain ⟨hpointer, hfollow⟩ := Option.ite_none_right_eq_some.mp hfound
          exact ⟨rfl, hreference, .inr hpointer, document, hget,
            Node.document_follow? hfollow⟩
      · cases h

/-- The scope only counts where the fragment is an anchor, and an anchor never leads
onward. -/
theorem hop_eq_onward_iff {resolver : Resolver} {text base uri next : String}
    {kind : Node.RefKind} {scope : List String} {node : Node} :
    resolver.hop text kind base scope = .onward uri node next ↔
      ∃ target, resolver.targetUri? (Reference.split text).1 base = some target ∧
        resolver.store.get? (Reference.withFragment target (Reference.split text).2) = none ∧
        resolver.hopInside target (Reference.split text).2 = .onward uri node next := by
  unfold hop
  dsimp only
  cases htarget : resolver.targetUri? (Reference.split text).1 base with
  | none => simp
  | some target =>
      simp only [Option.some.injEq, exists_eq_left']
      constructor
      · intro h
        split at h
        · cases h
        · split at h
          · cases h
          · rename_i hget
            exact ⟨hget, h⟩
      · rintro ⟨hget, hinside⟩
        have hplain : (kind = .dynamic && !(Reference.split text).2.isEmpty &&
            !Json.Pointer.isPointer (Reference.split text).2) = false := by
          obtain ⟨-, -, hempty | hpointer, -⟩ := of_hopInside_eq_onward hinside
          · simp [hempty]
          · simp [hpointer]
        simp only [hplain, hget]
        exact hinside

/-- A URI at which a reference is found tells the node and the base of the next hop. -/
theorem onward_unique {resolver : Resolver} {text other base around uri next beyond : String}
    {kind sort : Node.RefKind} {scope passed : List String} {node found : Node}
    (h : resolver.hop text kind base scope = .onward uri node next)
    (h' : resolver.hop other sort around passed = .onward uri found beyond) :
    node = found ∧ next = beyond := by
  obtain ⟨target, htarget, -, hinside⟩ := hop_eq_onward_iff.mp h
  obtain ⟨target', htarget', -, hinside'⟩ := hop_eq_onward_iff.mp h'
  have huri := (of_hopInside_eq_onward hinside).1
  rw [(of_hopInside_eq_onward hinside').1,
    Reference.withFragment_inj (hash_notMem_of_targetUri? htarget')
      (hash_notMem_of_targetUri? htarget)] at huri
  obtain ⟨rfl, hfragment⟩ := huri
  rw [hfragment, hinside, Hop.onward.injEq] at hinside'
  exact hinside'.2

theorem onward_mem_places {resolver : Resolver} {text base uri next first : String}
    {kind : Node.RefKind} {scope : List String} {node : Node}
    (h : resolver.hop text kind base scope = .onward uri node next)
    (hfirst : (Reference.split text).2 ∈ first :: resolver.store.fragments) :
    uri ∈ resolver.store.places first ∧
      ∀ beyond sort, node.role = .reference beyond sort →
        (Reference.split beyond).2 ∈ first :: resolver.store.fragments := by
  obtain ⟨target, -, -, hinside⟩ := hop_eq_onward_iff.mp h
  obtain ⟨rfl, -, -, document, hget, hdocument⟩ := of_hopInside_eq_onward hinside
  have hentry := Store.mem_entries_of_get? hget
  constructor
  · exact List.mem_flatMap.mpr ⟨_, hentry, List.mem_map_of_mem hfirst⟩
  · intro beyond sort hrole
    have htext := hdocument ▸ Node.mem_texts_of_role hrole
    exact List.mem_cons_of_mem _ (List.mem_flatMap.mpr ⟨_, hentry,
      List.mem_map_of_mem (f := fun text => (Reference.split text).2) htext⟩)

end Resolver

end SpecForm
