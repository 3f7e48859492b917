import SpecForm.Load.Targets
import SpecForm.Proofs.Document.Tree

/-!
# What a document refers to

The documents that any node within a document refers to are among those that the
document refers to, and these only depend on what is recorded for its nodes.
-/

namespace SpecForm.Load

variable {store after : Store} {fallback : String} {node document : Node}

/-! ## One node -/

theorem located?_mem_locatedBy {base keyword text uri : String} {value : Json}
    (hkeyword : keyword ∈ locators) (hmember : value.stringMember? keyword = some text)
    (hlocated : located? base text = some uri) : uri ∈ locatedBy base value :=
  List.mem_filterMap.mpr ⟨keyword, hkeyword, by simp [hmember, hlocated]⟩

theorem locatedIn_of_object {members : List (String × Json)} :
    locatedIn store fallback node (.object members) =
      locatedBy ((store.provenance? node).elim fallback Provenance.base) (.object members) ++
        locatedInMembers store fallback node members := by
  rw [locatedIn]

theorem locatedInMembers_subset {members : List (String × Json)} {name : String} {value : Json}
    (h : members.lookup name = some value) :
    locatedIn store fallback (node.step name) value ⊆
      locatedInMembers store fallback node members := by
  induction members with
  | nil => simp at h
  | cons entry rest ih =>
      obtain ⟨key, first⟩ := entry
      rw [List.lookup_cons] at h
      rw [locatedInMembers]
      cases hk : name == key with
      | true =>
          rw [hk, Option.some.injEq] at h
          rw [beq_iff_eq] at hk
          subst hk h
          exact List.subset_append_left _ _
      | false =>
          rw [hk] at h
          exact List.Subset.trans (ih h) (List.subset_append_right _ _)

theorem locatedInItems_subset {items : List Json} {i start : Nat} {value : Json}
    (h : items[i]? = some value) :
    locatedIn store fallback (node.step (toString (start + i))) value ⊆
      locatedInItems store fallback node start items := by
  induction items generalizing i start with
  | nil => simp at h
  | cons first rest ih =>
      rw [locatedInItems]
      cases i with
      | zero =>
          rw [List.getElem?_cons_zero, Option.some.injEq] at h
          subst h
          exact List.subset_append_left _ _
      | succ i =>
          rw [List.getElem?_cons_succ] at h
          rw [← Nat.add_assoc, Nat.add_right_comm]
          exact List.Subset.trans (ih h) (List.subset_append_right _ _)

/-! ## Nodes within a document -/

theorem locatedIn_child_subset {child : Node} (h : child ∈ node.children) :
    locatedIn store fallback child child.value ⊆ locatedIn store fallback node node.value := by
  match hv : node.value with
  | .object members =>
      rw [Node.children_of_object hv, List.mem_map] at h
      obtain ⟨name, hname, rfl⟩ := h
      obtain ⟨value, hlookup⟩ := Json.mem_names.mp hname
      rw [Node.value_step, hv, Json.Pointer.step?, hlookup, Option.getD_some,
        locatedIn_of_object]
      exact List.Subset.trans (locatedInMembers_subset hlookup) (List.subset_append_right _ _)
  | .array items =>
      rw [Node.children_of_array hv, List.mem_map] at h
      obtain ⟨i, hi, rfl⟩ := h
      rw [List.mem_range] at hi
      obtain ⟨value, hget⟩ : ∃ value, items[i]? = some value :=
        ⟨_, List.getElem?_eq_getElem hi⟩
      rw [Node.value_step, hv, Json.Pointer.step?, Json.Pointer.strictIndex?_toString,
        Option.bind_some, hget, Option.getD_some, locatedIn]
      rw [← Nat.zero_add i]
      exact locatedInItems_subset hget
  | .null | .bool _ | .int _ | .float _ | .string _ => simp [Node.children, hv] at h

theorem locatedIn_within_subset (h : document.Within node) :
    locatedIn store fallback node node.value ⊆
      locatedIn store fallback document document.value := by
  induction h with
  | root => exact List.Subset.refl _
  | child _ hchild ih => exact List.Subset.trans (locatedIn_child_subset hchild) ih

theorem located?_mem_targets {keyword text uri : String} {provenance : Provenance}
    (hwithin : document.Within node) (hrecorded : store.provenance? node = some provenance)
    (hkeyword : keyword ∈ locators) (hmember : node.value.stringMember? keyword = some text)
    (hlocated : located? provenance.base text = some uri) :
    uri ∈ targets store document := by
  rw [targets, List.mem_eraseDups]
  apply locatedIn_within_subset hwithin
  match hv : node.value with
  | .object members =>
      rw [locatedIn_of_object, hrecorded, ← hv]
      exact List.mem_append_left _ (located?_mem_locatedBy hkeyword hmember hlocated)
  | .null | .bool _ | .int _ | .float _ | .string _ | .array _ =>
      simp [hv, Json.stringMember?, Json.member?] at hmember

/-! ## Nodes that are recorded alike -/

section

variable {f : Node → Node}

mutual

theorem locatedIn_map (hstep : ∀ (node : Node) (token : String),
      (f node).step token = f (node.step token))
    (h : ∀ other : Node, other.document = document.document →
      after.provenance? (f other) = store.provenance? other)
    (value : Json) (node : Node) (hnode : node.document = document.document) :
    locatedIn after fallback (f node) value = locatedIn store fallback node value := by
  match value with
  | .object members =>
      rw [locatedIn_of_object, locatedIn_of_object, h node hnode,
        locatedInMembers_map hstep h members node hnode]
  | .array items => rw [locatedIn, locatedIn, locatedInItems_map hstep h items 0 node hnode]
  | .null | .bool _ | .int _ | .float _ | .string _ => simp [locatedIn]

theorem locatedInMembers_map (hstep : ∀ (node : Node) (token : String),
      (f node).step token = f (node.step token))
    (h : ∀ other : Node, other.document = document.document →
      after.provenance? (f other) = store.provenance? other)
    (members : List (String × Json)) (node : Node) (hnode : node.document = document.document) :
    locatedInMembers after fallback (f node) members =
      locatedInMembers store fallback node members := by
  match members with
  | [] => rw [locatedInMembers, locatedInMembers]
  | (name, value) :: rest =>
      rw [locatedInMembers, locatedInMembers, hstep,
        locatedIn_map hstep h value (node.step name) hnode,
        locatedInMembers_map hstep h rest node hnode]

theorem locatedInItems_map (hstep : ∀ (node : Node) (token : String),
      (f node).step token = f (node.step token))
    (h : ∀ other : Node, other.document = document.document →
      after.provenance? (f other) = store.provenance? other)
    (items : List Json) (start : Nat) (node : Node) (hnode : node.document = document.document) :
    locatedInItems after fallback (f node) start items =
      locatedInItems store fallback node start items := by
  match items with
  | [] => rw [locatedInItems, locatedInItems]
  | value :: rest =>
      rw [locatedInItems, locatedInItems, hstep,
        locatedIn_map hstep h value (node.step (toString start)) hnode,
        locatedInItems_map hstep h rest (start + 1) node hnode]

end

end

theorem targets_congr
    (h : ∀ other : Node, other.document = document.document →
      after.provenance? other = store.provenance? other) :
    targets after document = targets store document :=
  congrArg List.eraseDups
    (locatedIn_map (f := id) (fun _ _ => rfl) h document.value document rfl)

end SpecForm.Load
