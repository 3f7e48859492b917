import Mathlib.Algebra.Order.Group.Nat
import SpecForm.Proofs.Document.Size
import SpecForm.Proofs.Form.Schemas

/-!
# Where the parts of a schema are written

Whatever a schema is made of stands in its own document or beneath a node that the
store maps, apart from the notes of the references that led to it.  So there are
only so many places that have parts, and these are no more than the documents are
large.
-/

namespace SpecForm.Form

variable {resolver : Resolver} {places : List Node} {schema node child : Node} {uri : String}

/-! ## Places -/

structure Grounds (resolver : Resolver) (places : List Node) : Prop where
  children : ∀ {node child : Node}, node ∈ places → child ∈ node.children → child ∈ places
  mapped : ∀ {uri : String} {node : Node}, resolver.store.get? uri = some node → node ∈ places

/-- A node that has a value is one of the places, perhaps read in a copy. -/
def Standing (places : List Node) (node : Node) : Prop :=
  node.value ≠ .null → ∃ place ∈ places, place.content = node.content

/-- An object has the key of one of the places and its members, apart from the notes. -/
def Grounded (places : List Node) (node : Node) : Prop :=
  node.isObject → ∃ place ∈ places, place.key? = node.key? ∧
    ∀ name ∉ Node.noteNames, place.value.member? name = node.value.member? name

theorem value_ne_null_of_isObject (h : node.isObject) : node.value ≠ .null := by
  intro hnull
  simp [Node.isObject, hnull, Json.isObject, Json.asObject?] at h

namespace Standing

theorem of_mem (h : node ∈ places) : Standing places node := fun _ => ⟨node, h, rfl⟩

theorem grounded (h : Standing places node) : Grounded places node := by
  intro hobject
  obtain ⟨place, hplace, hcontent⟩ := h (value_ne_null_of_isObject hobject)
  obtain ⟨hkey, hvalue⟩ := Prod.mk.inj hcontent
  exact ⟨place, hplace, hkey, fun name _ => by rw [hvalue]⟩

theorem step (hgrounds : Grounds resolver places) (h : Standing places node) (token : String) :
    Standing places (node.step token) := by
  intro hvalue
  have hnode : node.value ≠ .null := by
    intro hnull
    simp [Node.value_step, hnull, Json.Pointer.step?] at hvalue
  obtain ⟨place, hplace, hcontent⟩ := h hnode
  have hstep := Node.content_step hcontent token
  rw [← (Prod.mk.inj hstep).2] at hvalue
  exact ⟨place.step token, hgrounds.children hplace (Node.mem_children_of_step hvalue), hstep⟩

theorem of_mem_entries (hgrounds : Grounds resolver places) (h : Standing places node)
    {entry : String × Node} (hentry : entry ∈ node.entries) : Standing places entry.2 := by
  obtain ⟨name, -, rfl⟩ := List.mem_map.mp hentry
  exact h.step hgrounds name

theorem of_mem_items (hgrounds : Grounds resolver places) (h : Standing places node)
    (hitem : child ∈ node.items) : Standing places child := by
  obtain ⟨token, rfl⟩ := Node.exists_step_of_mem_items hitem
  exact h.step hgrounds token

theorem of_follow? (hgrounds : Grounds resolver places) {path : List String}
    (h : Standing places node) (hfollow : node.follow? path = some child) :
    Standing places child := by
  induction path generalizing node with
  | nil => rwa [← Option.some.inj hfollow]
  | cons token rest ih =>
      obtain ⟨next, hnext, hrest⟩ := Option.bind_eq_some_iff.mp hfollow
      rw [Node.eq_step_of_child? hnext] at hrest
      exact ih (h.step hgrounds token) hrest

end Standing

namespace Grounded

theorem of_member? (hgrounds : Grounds resolver places) (h : Grounded places schema)
    {name : String} (hname : name ∉ Node.noteNames) (hchild : schema.member? name = some child) :
    Standing places child := by
  obtain ⟨hhas, rfl⟩ := Node.member?_eq_some_iff.mp hchild
  obtain ⟨place, hplace, hkey, hmember⟩ := h (Node.isObject_of_has hhas)
  have hplaceHas : place.has name := by rwa [Node.has, hmember name hname]
  have hvalue := hmember name hname
  rw [Node.member?_value_of_has hhas, Node.member?_value_of_has hplaceHas] at hvalue
  intro hnull
  rw [← Option.some.inj hvalue] at hnull
  refine ⟨place.step name, hgrounds.children hplace (Node.mem_children_of_step hnull), ?_⟩
  rw [Node.content, Node.content, Node.key?_step, Node.key?_step, hkey, Option.some.inj hvalue]

theorem overlay (h : Grounded places node) (reference : Node) :
    Grounded places (reference.overlay node) := by
  by_cases hobject : node.isObject
  · obtain ⟨place, hplace, hkey, hmember⟩ := h hobject
    obtain ⟨members, hmembers⟩ := Node.isObject_iff.mp hobject
    refine fun _ => ⟨place, hplace, by rw [Node.key?_overlay, hkey], fun name hname => ?_⟩
    rw [hmember name hname, Node.value_overlay hmembers, hmembers, Json.member?, Json.member?,
      Node.lookup_noted, if_neg hname]
  · rwa [Node.overlay_of_not_isObject hobject]

end Grounded

theorem Grounds.grounded_of_hop (hgrounds : Grounds resolver places) {text base : String}
    {kind : Node.RefKind} {scope : List String}
    (h : resolver.hop text kind base scope = .found node) : Grounded places node := by
  obtain ⟨uri, mapped, path, hget, hfollow⟩ := Resolver.exists_follow?_of_hop h
  exact ((Standing.of_mem (hgrounds.mapped hget)).of_follow? hgrounds hfollow).grounded

theorem Grounds.passes (hgrounds : Grounds resolver places) :
    Passes resolver (Grounded places) (Standing places) where
  fragment hschema :=
    Resolver.chase_induction hgrounds.grounded_of_hop
      (fun reference _ htarget => htarget.overlay reference) hschema
  resolve hnode hschema :=
    Resolver.resolve_induction hgrounds.grounded_of_hop
      (fun reference _ htarget => htarget.overlay reference) hnode hschema
  member hschema hname hchild := hschema.of_member? hgrounds hname hchild
  entries hnode hentry := hnode.of_mem_entries hgrounds hentry
  items hnode hitem := hnode.of_mem_items hgrounds hitem
  found_of_kept := Standing.grounded

/-! ## How many parts there are -/

namespace Merge

theorem length_parts (schema : Node) :
    (parts schema).length =
      (((schema.value.member? "allOf").bind Json.asArray?).getD []).length := by
  unfold parts Node.member?
  by_cases hhas : schema.has "allOf"
  · rw [if_pos hhas, Option.elim_some, Node.member?_value_of_has hhas, Option.bind_some, Node.items]
    cases (schema.step "allOf").value <;> simp [Json.asArray?]
  · rw [if_neg hhas, Option.not_isSome_iff_eq_none.mp hhas]
    rfl

theorem length_parts_congr {other : Node}
    (h : schema.value.member? "allOf" = other.value.member? "allOf") :
    (parts schema).length = (parts other).length := by
  rw [length_parts, length_parts, h]

theorem isObject_of_mem_parts (h : node ∈ parts schema) : schema.isObject := by
  obtain ⟨holder, hmember, -⟩ := exists_holder_of_mem_parts h
  exact Node.isObject_of_has (Node.member?_eq_some_iff.mp hmember).1

theorem length_parts_le (schema : Node) :
    (parts schema).length ≤ (schema.children.map fun child => child.children.length).sum := by
  unfold parts
  cases hmember : schema.member? "allOf" with
  | none => exact Nat.zero_le _
  | some holder =>
      have hholder := Node.mem_children_of_member? hmember
      rw [Option.elim_some]
      exact (Node.items_sublist_children holder).length_le.trans
        (List.le_sum_of_mem (List.mem_map_of_mem hholder))

theorem sum_add_length_le {α : Type} {first second bound : α → Nat} {entries : List α}
    (h : ∀ entry ∈ entries, first entry + second entry < bound entry) :
    (entries.map first).sum + (entries.map second).sum + entries.length ≤
      (entries.map bound).sum := by
  induction entries with
  | nil => exact Nat.le_refl 0
  | cons entry rest ih =>
      have hentry := h entry List.mem_cons_self
      have hrest := ih fun other hother => h other (List.mem_cons_of_mem _ hother)
      simp only [List.map_cons, List.sum_cons, List.length_cons]
      omega

theorem sum_length_parts_lt (node : Node) :
    (node.nodes.map fun place => (parts place).length).sum + node.children.length <
      node.value.size := by
  induction node using Node.nodes.induct with
  | case1 node ih =>
      have hbelow := sum_add_length_le ih
      have hparts := length_parts_le node
      have hsize := node.sum_size_children_lt
      rw [Node.nodes_eq, List.map_cons, List.sum_cons, List.map_flatMap, List.flatMap_def,
        List.sum_flatten, List.map_map]
      simp only [Function.comp_def]
      omega

end Merge

def grounds (resolver : Resolver) (schema : Node) : List Node :=
  schema.nodes ++ resolver.store.entries.flatMap fun entry => entry.2.nodes

theorem grounds_grounds (resolver : Resolver) (schema : Node) :
    Grounds resolver (grounds resolver schema) where
  children hnode hchild := by
    rcases List.mem_append.mp hnode with hown | hmapped
    · exact List.mem_append_left _ (Node.mem_nodes_of_children hown hchild)
    · obtain ⟨entry, hentry, hmem⟩ := List.mem_flatMap.mp hmapped
      exact List.mem_append_right _
        (List.mem_flatMap.mpr ⟨entry, hentry, Node.mem_nodes_of_children hmem hchild⟩)
  mapped hget :=
    List.mem_append_right _ (List.mem_flatMap.mpr ⟨_, Store.mem_entries_of_get? hget,
      Node.mem_nodes_self _⟩)

theorem mem_grounds_self (resolver : Resolver) (schema : Node) :
    schema ∈ grounds resolver schema :=
  List.mem_append_left _ (Node.mem_nodes_self schema)

theorem sum_mapped_le (entries : List (String × Node)) (size : Nat) :
    ((entries.flatMap fun entry => entry.2.nodes).map fun place =>
        (Merge.parts place).length).sum + size ≤
      entries.foldl (fun size (_, node) => size + node.document.root.size) size := by
  induction entries generalizing size with
  | nil => simp
  | cons entry rest ih =>
      have hrest := ih (size + entry.2.document.root.size)
      have hparts := Merge.sum_length_parts_lt entry.2
      have hsize := entry.2.size_value_le
      simp only [List.flatMap_cons, List.map_append, List.sum_append, List.foldl_cons] at hrest ⊢
      omega

theorem sum_grounds_le (resolver : Resolver) (schema : Node) :
    ((grounds resolver schema).map fun place => (Merge.parts place).length).sum ≤
      resolver.limit + schema.document.root.size := by
  have hown := Merge.sum_length_parts_lt schema
  have hsize := schema.size_value_le
  have hmapped := sum_mapped_le resolver.store.entries 0
  have hbound : resolver.store.entries.foldl
      (fun size (_, node) => size + node.document.root.size) 0 ≤ resolver.limit := by
    refine le_trans ?_ resolver.hopBound_le_limit
    rw [Store.hopBound]
    cases resolver.store.entries with
    | nil => simp
    | cons entry rest => exact (Nat.le_succ _).trans (Nat.le_mul_of_pos_left _ (Nat.succ_pos _))
  rw [grounds, List.map_append, List.sum_append]
  omega

end SpecForm.Form
