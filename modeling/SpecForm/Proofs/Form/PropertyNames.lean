import SpecForm.Proofs.Form.Schemas

/-!
# Names of properties

Merging gathers properties one schema after the other, and of each name it keeps the first.
So no two merged properties have one name, whatever the schemas are.
-/

namespace SpecForm.Form

variable {resolver : Resolver} {merge : Merge} {name : String}
  {properties entries : List (String × Node)} {entry : String × Node}

def ownProperties (schema : Node) : List (String × Node) :=
  (schema.member? "properties").elim [] Node.entries

namespace Merge

def names (properties : List (String × Node)) : List String := properties.map Prod.fst

theorem any_name (properties : List (String × Node)) (name : String) :
    (properties.any fun (other, _) => other = name) = decide (name ∈ names properties) := by
  rw [Bool.eq_iff_iff, List.any_eq_true, decide_eq_true_iff, names, List.mem_map]
  simp only [decide_eq_true_iff]

theorem addProperty_of_mem (h : entry.1 ∈ names properties) :
    addProperty properties entry = properties := by
  rw [addProperty, any_name, if_pos (by simpa using h)]

theorem addProperty_of_notMem (h : entry.1 ∉ names properties) :
    addProperty properties entry = properties ++ [entry] := by
  rw [addProperty, any_name, if_neg (by simpa using h)]

theorem mem_names_foldl : name ∈ names (entries.foldl addProperty properties) ↔
    name ∈ names properties ∨ name ∈ names entries := by
  induction entries generalizing properties with
  | nil => simp [names]
  | cons entry rest ih =>
      rw [List.foldl_cons, ih]
      by_cases hmem : entry.1 ∈ names properties
      · rw [addProperty_of_mem hmem]
        simp only [names, List.map_cons, List.mem_cons] at hmem ⊢
        grind
      · rw [addProperty_of_notMem hmem]
        simp only [names, List.map_append, List.map_cons, List.map_nil, List.mem_append,
          List.mem_cons, List.not_mem_nil, or_false]
        exact or_assoc

theorem foldl_addProperty_of_subset (h : names entries ⊆ names properties) :
    entries.foldl addProperty properties = properties := by
  induction entries with
  | nil => rfl
  | cons entry rest ih =>
      obtain ⟨hentry, hrest⟩ := List.cons_subset.mp h
      rw [List.foldl_cons, addProperty_of_mem hentry, ih hrest]

theorem nodup_names_foldl (h : (names properties).Nodup) (entries : List (String × Node)) :
    (names (entries.foldl addProperty properties)).Nodup := by
  induction entries generalizing properties with
  | nil => exact h
  | cons entry rest ih =>
      rw [List.foldl_cons]
      refine ih ?_
      by_cases hmem : entry.1 ∈ names properties
      · rwa [addProperty_of_mem hmem]
      · rw [addProperty_of_notMem hmem, names, List.map_append]
        exact h.append (List.nodup_singleton _) (by simpa [List.disjoint_singleton] using hmem)

theorem foldl_addProperty_eq (entries properties : List (String × Node)) :
    entries.foldl addProperty properties =
      properties ++ (entries.filter fun entry => entry.1 ∉ names properties).eraseDupsBy
        fun later earlier => later.1 = earlier.1 := by
  induction entries generalizing properties with
  | nil => simp
  | cons entry rest ih =>
      rw [List.foldl_cons, ih]
      by_cases hmem : entry.1 ∈ names properties
      · rw [addProperty_of_mem hmem, List.filter_cons_of_neg (by simpa using hmem)]
      · have hnames : ∀ name, name ∉ names (properties ++ [entry]) ↔
            name ∉ names properties ∧ name ≠ entry.1 := by
          intro name
          simp [names, not_or]
        rw [addProperty_of_notMem hmem, List.filter_cons_of_pos (by simpa using hmem),
          List.eraseDupsBy_cons, List.append_assoc, List.singleton_append, List.filter_filter]
        simp only [hnames, decide_eq_false_iff_not, Bool.decide_and, ne_eq, decide_not,
          Bool.and_comm]

theorem nodup_names_step (h : (names merge.properties).Nodup) :
    (names (merge.step resolver).properties).Nodup := by
  have hvisit : ∀ merge' : Merge, merge'.properties = merge.properties → ∀ own,
      (names (merge'.visit own).properties).Nodup := fun merge' hsame own =>
    nodup_names_foldl (hsame ▸ h) (ownProperties own)
  unfold Merge.step
  split
  · exact h
  · dsimp only
    split
    · exact h
    · split
      · exact hvisit _ rfl _
      · split
        · exact h
        · exact hvisit _ rfl _

end Merge

theorem nodup_mergedProperties (resolver : Resolver) (schema : Node) :
    ((mergedProperties resolver schema).map Property.name).Nodup := by
  have hstep : ∀ merge : Merge, (Merge.names merge.properties).Nodup →
      (Merge.names (merge.step resolver).properties).Nodup := fun _ => Merge.nodup_names_step
  have hstart : (Merge.names (Merge.start schema).properties).Nodup := List.nodup_nil
  have hnodup := Merge.exhaust_induction hstep hstart
  have hmerged := hnodup (Nat.log2 (resolver.limit + schema.document.root.size) + 64)
  rw [Merge.names] at hmerged
  simpa only [mergedProperties, List.map_map, Function.comp_def] using hmerged

end SpecForm.Form
