import Mathlib.Algebra.GroupWithZero.Nat
import Mathlib.Algebra.Order.BigOperators.Group.List
import SpecForm.Proofs.Document.Tree

/-!
# Sizes of nodes

A node is larger than its children together, and no larger than its document.
-/

namespace SpecForm

namespace Json

theorem sum_size_lookup_le (members : List (String × Json)) {names : List String}
    (hnames : names.Nodup) :
    (names.map fun name => (members.lookup name).elim 0 size).sum ≤ sizeMembers members := by
  induction members generalizing names with
  | nil => simp [sizeMembers]
  | cons entry rest ih =>
      obtain ⟨key, value⟩ := entry
      have hothers := ih (hnames.erase key)
      have hsame : ∀ name ∈ names.erase key,
          (((key, value) :: rest).lookup name).elim 0 size = (rest.lookup name).elim 0 size := by
        intro name hname
        have hne : name ≠ key := (hnames.mem_erase_iff.mp hname).1
        rw [List.lookup_cons, beq_eq_false_iff_ne.mpr hne]
      rw [← List.map_congr_left hsame] at hothers
      rw [sizeMembers]
      by_cases hkey : key ∈ names
      · have hperm := (List.perm_cons_erase hkey).map fun name =>
          (((key, value) :: rest).lookup name).elim 0 size
        rw [hperm.sum_eq, List.map_cons, List.sum_cons, List.lookup_cons_self, Option.elim_some]
        omega
      · rw [List.erase_of_not_mem hkey] at hothers
        omega

theorem sizeItems_eq (items : List Json) : sizeItems items = (items.map size).sum := by
  induction items with
  | nil => rfl
  | cons item rest ih => rw [sizeItems, ih, List.map_cons, List.sum_cons]

theorem size_lt_of_step? {value next : Json} {token : String}
    (h : Pointer.step? value token = some next) : next.size < value.size := by
  cases value with
  | object members => exact size_lt_of_lookup h
  | array items =>
      obtain ⟨i, -, hget⟩ := Option.bind_eq_some_iff.mp h
      exact size_lt_of_getElem? hget
  | null | bool | int | float | string => cases h

theorem size_le_of_follow? {value last : Json} {tokens : List String}
    (h : Pointer.follow? value tokens = some last) : last.size ≤ value.size := by
  induction tokens generalizing value with
  | nil => rw [← Option.some.inj h]
  | cons token rest ih =>
      obtain ⟨next, hnext, hrest⟩ := Option.bind_eq_some_iff.mp h
      exact (ih hrest).trans (size_lt_of_step? hnext).le

end Json

namespace Node

theorem size_value_le (node : Node) : node.value.size ≤ node.document.root.size := by
  unfold value
  cases hvalue : Json.Pointer.eval? node.pointer node.document.root with
  | none => exact Json.size_pos _
  | some value =>
      unfold Json.Pointer.eval? at hvalue
      split at hvalue
      · rw [Option.getD_some, Option.some.inj hvalue]
      · split at hvalue
        · exact Json.size_le_of_follow? hvalue
        · cases hvalue

theorem sum_size_children_lt (node : Node) :
    (node.children.map fun child => child.value.size).sum < node.value.size := by
  match hv : node.value with
  | .object members =>
      have hsize : ∀ name ∈ Json.names members,
          (node.step name).value.size = (members.lookup name).elim 0 Json.size := by
        intro name hname
        obtain ⟨value, hlookup⟩ := Json.mem_names.mp hname
        rw [value_step, hv, Json.Pointer.step?, hlookup]
        rfl
      have hle := Json.sum_size_lookup_le members (Json.nodup_names members)
      rw [children_of_object hv, List.map_map, Json.size]
      rw [← List.map_congr_left hsize] at hle
      exact Nat.lt_succ_of_le hle
  | .array items =>
      have hsize : (List.range items.length).map (fun i => (node.step (toString i)).value.size) =
          items.map Json.size := by
        refine List.ext_getElem (by simp) fun i hi hi' => ?_
        simp only [List.getElem_map, List.getElem_range, value_step, hv, Json.Pointer.step?,
          Json.Pointer.strictIndex?_toString, Option.bind_some]
        rw [List.getElem?_eq_getElem (by simpa using hi)]
        rfl
      rw [children_of_array hv, List.map_map, Json.size, Json.sizeItems_eq, ← hsize]
      exact Nat.lt_succ_self _
  | .null | .bool _ | .int _ | .float _ | .string _ => simp [children, hv, Json.size]

/-! ## Members and items -/

theorem mem_children_of_member? {node child : Node} {name : String}
    (h : node.member? name = some child) : child ∈ node.children := by
  obtain ⟨hhas, rfl⟩ := member?_eq_some_iff.mp h
  match hv : node.value with
  | .object members =>
      refine step_mem_children hv (Json.mem_names.mpr ?_)
      rw [has, hv] at hhas
      exact Option.isSome_iff_exists.mp hhas
  | .array _ | .null | .bool _ | .int _ | .float _ | .string _ =>
      simp [has, hv, Json.member?] at hhas

theorem items_sublist_children (node : Node) : node.items.Sublist node.children := by
  unfold children items
  cases node.value <;> simp

end Node

end SpecForm
