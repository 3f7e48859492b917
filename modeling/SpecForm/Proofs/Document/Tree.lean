import Mathlib.Data.List.Nodup
import SpecForm.Document.Index

/-!
# The nodes of a document

The nodes at and beneath a node are the ones that are reached from it over
children.  They are listed in the order in which the document is written, each
with the base that it stands under, and no two of them have one pointer.
-/

namespace SpecForm

/-! ## Names of children -/

theorem Json.nodup_names (members : List (String × Json)) : (names members).Nodup := by
  suffices ∀ all : List String, all.eraseDups.Nodup from this _
  intro all
  induction hn : all.length using Nat.strongRecOn generalizing all with
  | ind n ih =>
      cases all with
      | nil => simp
      | cons name rest =>
          rw [List.eraseDups_cons, List.nodup_cons, List.mem_eraseDups]
          refine ⟨by simp, ih _ ?_ _ rfl⟩
          have := List.length_filter_le (fun other => !other == name) rest
          simp only [List.length_cons] at hn
          omega

namespace Node

theorem exists_tokens_of_children (node : Node) :
    ∃ tokens : List String, tokens.Nodup ∧ node.children = tokens.map node.step := by
  match hv : node.value with
  | .object members =>
      exact ⟨Json.names members, Json.nodup_names members, children_of_object hv⟩
  | .array items =>
      refine ⟨(List.range items.length).map toString, ?_, ?_⟩
      · apply List.nodup_range.map
        intro i j hij
        have := congrArg Json.Pointer.strictIndex? hij
        simpa only [Json.Pointer.strictIndex?_toString, Option.some.injEq] using this
      · rw [children_of_array hv, List.map_map]
        rfl
  | .null | .bool _ | .int _ | .float _ | .string _ =>
      exact ⟨[], List.nodup_nil, by simp [children, hv]⟩

/-! ## Nodes beneath a node -/

inductive Within (root : Node) : Node → Prop where
  | root : Within root root
  | child {parent child : Node} : Within root parent → child ∈ parent.children →
      Within root child

/-- The base beneath a node that stands under the base `outer`: its `$id`, where it has
one that can be read against that base. -/
def baseUnder (node : Node) (outer : String) : String :=
  match node.string? "$id" with
  | none => outer
  | some id =>
      match Uri.resolve? outer id with
      | none => outer
      | some uri => Reference.withoutFragment uri

inductive HasBase (root : Node) (logical : String) : Node → String → Prop where
  | root : HasBase root logical root (root.baseUnder logical)
  | child {parent child : Node} {base : String} : HasBase root logical parent base →
      child ∈ parent.children → HasBase root logical child (child.baseUnder base)

theorem Within.exists_hasBase {root node : Node} (h : root.Within node) (logical : String) :
    ∃ base, root.HasBase logical node base := by
  induction h with
  | root => exact ⟨_, .root⟩
  | child _ hchild ih =>
      obtain ⟨base, hbase⟩ := ih
      exact ⟨_, .child hbase hchild⟩

/-- A node and all nodes beneath it in the order of the document, each with the base
that it stands under. -/
def tree (node : Node) (outer : String) : List (Node × String) :=
  (node, outer) :: node.children.attach.flatMap fun ⟨child, _⟩ =>
    child.tree (node.baseUnder outer)
termination_by node.value.size
decreasing_by exact size_child_lt ‹_›

theorem tree_eq (node : Node) (outer : String) :
    node.tree outer =
      (node, outer) :: node.children.flatMap (tree · (node.baseUnder outer)) := by
  rw [tree]
  simp [List.flatMap_def]

theorem mem_tree_self (node : Node) (outer : String) : (node, outer) ∈ node.tree outer := by
  rw [tree_eq]
  exact List.mem_cons_self

theorem mem_tree_child {root node child : Node} {logical outer : String}
    (h : (node, outer) ∈ root.tree logical) (hchild : child ∈ node.children) :
    (child, node.baseUnder outer) ∈ root.tree logical := by
  induction root, logical using tree.induct with
  | case1 root logical ih =>
      rw [tree_eq, List.mem_cons, List.mem_flatMap] at h ⊢
      right
      rcases h with hself | ⟨below, hbelow, hmem⟩
      · obtain ⟨rfl, rfl⟩ := Prod.mk.inj hself
        exact ⟨child, hchild, mem_tree_self _ _⟩
      · exact ⟨below, hbelow, ih below hbelow hmem⟩

theorem HasBase.of_child {root child node : Node} {logical base : String}
    (hchild : child ∈ root.children) (h : child.HasBase (root.baseUnder logical) node base) :
    root.HasBase logical node base := by
  induction h with
  | root => exact .child .root hchild
  | child _ hbelow ih => exact .child ih hbelow

theorem hasBase_of_mem_tree {root node : Node} {logical outer : String}
    (h : (node, outer) ∈ root.tree logical) :
    root.HasBase logical node (node.baseUnder outer) := by
  induction root, logical using tree.induct with
  | case1 root logical ih =>
      rw [tree_eq, List.mem_cons, List.mem_flatMap] at h
      rcases h with hself | ⟨below, hbelow, hmem⟩
      · obtain ⟨rfl, rfl⟩ := Prod.mk.inj hself
        exact .root
      · exact .of_child hbelow (ih below hbelow hmem)

theorem HasBase.within {root node : Node} {logical base : String}
    (h : root.HasBase logical node base) : root.Within node := by
  induction h with
  | root => exact .root
  | child _ hchild ih => exact .child ih hchild

theorem hash_notMem_baseUnder {outer : String} (h : '#' ∉ outer.toList) (node : Node) :
    '#' ∉ (node.baseUnder outer).toList := by
  unfold baseUnder
  split
  · exact h
  · split
    · exact h
    · exact Reference.hash_notMem_withoutFragment _

theorem HasBase.hash_notMem {root node : Node} {logical base : String}
    (h : root.HasBase logical node base) (hlogical : '#' ∉ logical.toList) :
    '#' ∉ base.toList := by
  induction h with
  | root => exact hash_notMem_baseUnder hlogical _
  | child _ _ ih => exact hash_notMem_baseUnder ih _

theorem HasBase.exists_mem_tree {root node : Node} {logical base : String}
    (h : root.HasBase logical node base) :
    ∃ outer, (node, outer) ∈ root.tree logical ∧ base = node.baseUnder outer := by
  induction h with
  | root => exact ⟨logical, mem_tree_self _ _, rfl⟩
  | child _ hchild ih =>
      obtain ⟨outer, hmem, rfl⟩ := ih
      exact ⟨_, mem_tree_child hmem hchild, rfl⟩

/-! ## Pointers -/

theorem step_pointer_append (node : Node) (token : String) (path : List String) :
    (node.step token).pointer ++ Json.Pointer.ofTokens path =
      node.pointer ++ Json.Pointer.ofTokens (token :: path) := by
  simp [step, Json.Pointer.ofTokens_cons, Json.Pointer.child, String.append_assoc]

theorem exists_path_of_mem_tree {root node : Node} {logical outer : String}
    (h : (node, outer) ∈ root.tree logical) :
    node.document = root.document ∧
      ∃ path, node.pointer = root.pointer ++ Json.Pointer.ofTokens path := by
  induction root, logical using tree.induct with
  | case1 root logical ih =>
      rw [tree_eq, List.mem_cons, List.mem_flatMap] at h
      rcases h with hself | ⟨below, hbelow, hmem⟩
      · obtain ⟨rfl, rfl⟩ := Prod.mk.inj hself
        exact ⟨rfl, [], by simp [Json.Pointer.ofTokens]⟩
      · obtain ⟨tokens, -, htokens⟩ := exists_tokens_of_children root
        rw [htokens, List.mem_map] at hbelow
        obtain ⟨token, htoken, rfl⟩ := hbelow
        obtain ⟨hdocument, path, hpath⟩ := ih _ (htokens ▸ List.mem_map_of_mem htoken) hmem
        exact ⟨hdocument, token :: path, hpath.trans (step_pointer_append root token path)⟩

theorem nodup_pointers_tree (root : Node) (logical : String) :
    ((root.tree logical).map fun entry => entry.1.pointer).Nodup := by
  induction root, logical using tree.induct with
  | case1 root logical ih =>
      obtain ⟨tokens, hnodup, htokens⟩ := exists_tokens_of_children root
      -- Beneath different children pointers differ in the token after the one of the
      -- root, since a token has no slash in it.
      have hbelow : ∀ token pointer,
          pointer ∈ ((root.step token).tree (root.baseUnder logical)).map
            (fun entry => entry.1.pointer) →
          ∃ path, pointer = root.pointer ++ Json.Pointer.ofTokens (token :: path) := by
        intro token pointer hmem
        obtain ⟨entry, hentry, rfl⟩ := List.mem_map.mp hmem
        obtain ⟨-, path, hpath⟩ := exists_path_of_mem_tree hentry
        exact ⟨path, hpath.trans (step_pointer_append root token path)⟩
      rw [tree_eq, List.map_cons, List.map_flatMap, List.nodup_cons]
      constructor
      · intro hmem
        obtain ⟨child, hchild, hpointer⟩ := List.mem_flatMap.mp hmem
        rw [htokens, List.mem_map] at hchild
        obtain ⟨token, -, rfl⟩ := hchild
        obtain ⟨path, hpath⟩ := hbelow token root.pointer hpointer
        have hself : root.pointer ++ Json.Pointer.ofTokens [] = root.pointer := by
          simp [Json.Pointer.ofTokens]
        have hnil := Json.Pointer.append_ofTokens_inj.mp (hself.trans hpath)
        contradiction
      · rw [List.nodup_flatMap]
        refine ⟨fun child hchild => ih child hchild, ?_⟩
        rw [htokens, List.pairwise_map]
        refine hnodup.imp fun {first second} hne => ?_
        intro pointer hfirst hsecond
        obtain ⟨path, rfl⟩ := hbelow first pointer hfirst
        obtain ⟨path', hpath⟩ := hbelow second _ hsecond
        rw [Json.Pointer.append_ofTokens_inj, List.cons.injEq] at hpath
        exact hne hpath.1

/-! ## Following tokens -/

theorem member?_eq_some_iff {node child : Node} {name : String} :
    node.member? name = some child ↔ node.has name ∧ node.step name = child := by
  simp [member?]

theorem exists_step_of_mem_items {node item : Node} (h : item ∈ node.items) :
    ∃ token, item = node.step token := by
  unfold items at h
  split at h
  · obtain ⟨i, -, rfl⟩ := List.mem_map.mp h
    exact ⟨toString i, rfl⟩
  · cases h

theorem eq_step_of_child? {node child : Node} {token : String}
    (h : node.child? token = some child) : child = node.step token := by
  unfold child? member? at h
  split at h
  · exact (Option.ite_none_right_eq_some.mp h).2 |> Option.some.inj |>.symm
  · split at h
    · exact (Option.ite_none_right_eq_some.mp h).2 |> Option.some.inj |>.symm
    · cases h
  · cases h

/-- A step to a value leads to a child.  The token of a step may be an index that is not in
the strict form, but then nothing is there. -/
theorem mem_children_of_step {node : Node} {token : String} (h : (node.step token).value ≠ .null) :
    node.step token ∈ node.children := by
  rw [value_step] at h
  cases hvalue : node.value with
  | object members =>
      rw [hvalue, Json.Pointer.step?] at h
      cases hlookup : members.lookup token with
      | none => simp [hlookup] at h
      | some value =>
          exact step_mem_children hvalue (Json.mem_names.mpr ⟨value, hlookup⟩)
  | array items =>
      rw [hvalue, Json.Pointer.step?] at h
      cases hindex : Json.Pointer.strictIndex? token with
      | none => simp [hindex] at h
      | some i =>
          have hi : i < items.length := by
            by_contra hout
            rw [hindex, Option.bind_some, List.getElem?_eq_none (by omega)] at h
            exact h rfl
          rw [children_of_array hvalue, ← Json.Pointer.toString_of_strictIndex? hindex]
          exact List.mem_map_of_mem (List.mem_range.mpr hi)
  | null | bool | int | float | string => simp [hvalue, Json.Pointer.step?] at h

theorem mem_children_of_child? {node next : Node} {token : String}
    (h : node.child? token = some next) (hvalue : next.value ≠ .null) : next ∈ node.children := by
  rw [eq_step_of_child? h] at hvalue ⊢
  exact mem_children_of_step hvalue

theorem child?_of_mem_children {node child : Node} (h : child ∈ node.children) :
    ∃ token, child = node.step token ∧ node.child? token = some child := by
  match hv : node.value with
  | .object members =>
      rw [children_of_object hv, List.mem_map] at h
      obtain ⟨name, hname, rfl⟩ := h
      obtain ⟨value, hlookup⟩ := Json.mem_names.mp hname
      have hhas : node.has name := by simp [has, hv, Json.member?, hlookup]
      exact ⟨name, rfl, by simp [child?, hv, member?, hhas]⟩
  | .array items =>
      rw [children_of_array hv, List.mem_map] at h
      obtain ⟨i, hi, rfl⟩ := h
      rw [List.mem_range] at hi
      refine ⟨toString i, rfl, ?_⟩
      simp only [child?, hv, Json.Pointer.looseIndex?_toString, if_pos hi]
  | .null | .bool _ | .int _ | .float _ | .string _ => simp [children, hv] at h

theorem follow?_append (node : Node) (front back : List String) :
    node.follow? (front ++ back) = (node.follow? front).bind fun middle => middle.follow? back := by
  induction front generalizing node with
  | nil => rfl
  | cons token rest ih =>
      rw [List.cons_append, follow?, follow?]
      cases node.child? token with
      | none => rfl
      | some next => exact ih next

theorem Within.exists_path {root node : Node} (h : root.Within node) :
    node.document = root.document ∧ ∃ path,
      node.pointer = root.pointer ++ Json.Pointer.ofTokens path ∧
        root.follow? path = some node := by
  induction h with
  | root => exact ⟨rfl, [], by simp [Json.Pointer.ofTokens], rfl⟩
  | @child parent child _ hchild ih =>
      obtain ⟨hdocument, path, hpointer, hfollow⟩ := ih
      obtain ⟨token, hstep, htoken⟩ := child?_of_mem_children hchild
      refine ⟨by rw [hstep]; exact hdocument, path ++ [token], ?_, ?_⟩
      · rw [hstep, step, hpointer, Json.Pointer.ofTokens, Json.Pointer.ofTokens,
          List.foldl_append, List.foldl_cons, List.foldl_nil]
        simp [Json.Pointer.child, String.append_assoc]
      · rw [follow?_append, hfollow, Option.bind_some, follow?, htoken, Option.bind_some, follow?]

theorem Within.follow?_tokens {document node : Node} (h : document.Within node)
    (hroot : document.pointer = "") :
    document.follow? (Json.Pointer.tokens node.pointer) = some node := by
  obtain ⟨-, path, hpointer, hfollow⟩ := h.exists_path
  rw [hroot, String.empty_append] at hpointer
  rw [hpointer, Json.Pointer.tokens_ofTokens, hfollow]

theorem Within.isPointer {document node : Node} (h : document.Within node)
    (hroot : document.pointer = "") (hne : node ≠ document) :
    Json.Pointer.isPointer node.pointer := by
  obtain ⟨-, path, hpointer, hfollow⟩ := h.exists_path
  rw [hpointer, hroot, String.empty_append]
  cases path with
  | nil => exact absurd (Option.some.inj hfollow).symm hne
  | cons token rest => exact Json.Pointer.isPointer_ofTokens_cons token rest

theorem isObject_of_has {node : Node} {name : String} (h : node.has name) : node.isObject := by
  unfold has at h
  unfold isObject
  cases hvalue : node.value with
  | object members => rfl
  | _ => simp [hvalue, Json.member?] at h

theorem isObject_of_string? {node : Node} {name text : String}
    (h : node.string? name = some text) : node.isObject := by
  obtain ⟨value, hmember, -⟩ := Option.bind_eq_some_iff.mp h
  exact isObject_of_has (Option.isSome_of_mem hmember)

theorem isObject_of_isReference {node : Node} (h : node.isReference) : node.isObject := by
  rw [isReference, Bool.or_eq_true] at h
  rcases h with href | hdynamic
  · exact isObject_of_has href
  · exact isObject_of_has hdynamic

theorem within_of_follow? {root node last : Node} {tokens : List String}
    (hnode : root.Within node) (h : node.follow? tokens = some last) (hobject : last.isObject) :
    root.Within last := by
  induction tokens generalizing node with
  | nil =>
      obtain rfl : node = last := by simpa [follow?] using h
      exact hnode
  | cons token rest ih =>
      obtain ⟨next, hchild, hrest⟩ := Option.bind_eq_some_iff.mp h
      refine ih (.child hnode (mem_children_of_child? hchild fun hnull => ?_)) hrest
      -- Nothing is beneath `null`, and it is no object.
      cases rest with
      | nil =>
          obtain rfl : next = last := by simpa [follow?] using hrest
          simp [isObject, hnull, Json.isObject, Json.asObject?] at hobject
      | cons second rest => simp [follow?, child?, hnull] at hrest

end Node

end SpecForm
