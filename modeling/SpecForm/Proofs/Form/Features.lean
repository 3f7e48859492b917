import SpecForm.Proofs.Form.Variants

/-!
# Features

Each feature of an analysis is there exactly if one of its controls calls for it, at any depth
and in any variant.
-/

namespace SpecForm.Form

open Control

def Analysis.allControls (analysis : Analysis) : List Control :=
  partsOf analysis.controls ++
    analysis.variantSets.flatMap fun set => set.variants.flatMap fun variant =>
      partsOf variant.controls

structure IsFlag (flag : Features → Bool) : Prop where
  none : flag .none = false
  join : ∀ features other, flag (features.join other) = (flag features || flag other)

namespace IsFlag

variable {flag : Features → Bool}

theorem joined (h : IsFlag flag) (all : List Features) : flag (Walk.joined all) = all.any flag := by
  induction all with
  | nil => exact h.none
  | cons first rest ih =>
      rw [Walk.joined, List.foldr_cons, ← Walk.joined, h.join, ih, List.any_cons]

theorem features (h : IsFlag flag) (controls : List Control) :
    flag (Control.features controls) = (partsOf controls).any fun control =>
      flag control.ownFeatures := by
  rw [Control.features, h.joined, List.any_map]
  rfl

theorem variantSet (h : IsFlag flag) (set : VariantSet) :
    flag set.features =
      ((set.variants.flatMap fun variant => partsOf variant.controls).any
          (fun control => flag control.ownFeatures) ||
        flag { Features.none with isPolymorphic := true }) := by
  rw [VariantSet.features, h.join, VariantSet.controls, features_flatMap, h.joined, List.any_map,
    List.any_flatMap]
  simp only [Function.comp_def, h.features]

theorem analysis (h : IsFlag flag) (resolver : Resolver) (depth : Nat) (resource : Resource) :
    let analysis := analyze resolver depth resource
    flag analysis.features =
      (analysis.allControls.any (fun control => flag control.ownFeatures) ||
        analysis.variantSets.any fun _ => flag { Features.none with isPolymorphic := true }) := by
  obtain ⟨tops, -, hcontrols, hsets, -, hfeatures⟩ := exists_tops resolver depth resource
  dsimp only
  rw [hfeatures, h.joined, Analysis.allControls, hcontrols, hsets]
  clear hcontrols hsets hfeatures
  induction tops with
  | nil => rfl
  | cons top rest ih =>
      rw [List.map_cons, List.any_cons, ih, TopProperty.features, h.join]
      cases hvariants : top.variants <;> cases hcontrol : top.control <;>
        simp only [hvariants, hcontrol, List.filterMap_cons, Option.elim_none, Option.elim_some,
          Option.toList_none, Option.toList_some, features_nil, h.none, h.features, h.variantSet,
          partsOf, List.flatMap_cons, List.any_append, List.any_cons, List.append_nil,
          Bool.false_or, Bool.or_false] <;>
        ac_rfl

end IsFlag

/--
Whatever the documents, the model and the depth, the features of an analysis tell what is in
it.  Let the controls be all that it has, at any depth of a form, a list or a map, and those of
all variants.  Then custom validators are in use exactly if a control has a rule that needs
one, there are form arrays exactly if a control is an array of forms, maps exactly if a
control is a map, and file uploads exactly if the type of a control is a file or a list of
files; and the analysis is polymorphic exactly if some property has variants.
-/
theorem features_iff_controls (resolver : Resolver) (depth : Nat) (resource : Resource) :
    let analysis := analyze resolver depth resource
    (analysis.features.usesCustomValidators ↔ ∃ control ∈ analysis.allControls,
        ∃ rule ∈ control.field.rules, rule.needsCustomValidator) ∧
      (analysis.features.hasFormArrays ↔ ∃ control ∈ analysis.allControls,
        control.typeName = "array" ∧ control.nested?.isSome) ∧
      (analysis.features.hasMaps ↔ ∃ control ∈ analysis.allControls, control.typeName = "map") ∧
      (analysis.features.hasFileUploads ↔ ∃ control ∈ analysis.allControls,
        control.field.dataType = "File" ∨ control.field.dataType = "File[]") ∧
      (analysis.features.isPolymorphic ↔ analysis.variantSets ≠ []) := by
  intro analysis
  have hcustom : IsFlag Features.usesCustomValidators := ⟨rfl, fun _ _ => rfl⟩
  have harrays : IsFlag Features.hasFormArrays := ⟨rfl, fun _ _ => rfl⟩
  have hmaps : IsFlag Features.hasMaps := ⟨rfl, fun _ _ => rfl⟩
  have hfiles : IsFlag Features.hasFileUploads := ⟨rfl, fun _ _ => rfl⟩
  have hvariants : IsFlag Features.isPolymorphic := ⟨rfl, fun _ _ => rfl⟩
  refine ⟨?_, ?_, ?_, ?_, ?_⟩
  · rw [hcustom.analysis resolver depth resource]
    simp [Features.none, ownFeatures, analysis]
  · rw [harrays.analysis resolver depth resource]
    simp [Features.none, ownFeatures, isFormList, analysis]
  · rw [hmaps.analysis resolver depth resource]
    simp [Features.none, ownFeatures, isMap, analysis]
  · rw [hfiles.analysis resolver depth resource]
    simp [Features.none, ownFeatures, isFileType, analysis]
  · rw [hvariants.analysis resolver depth resource]
    simp [ownFeatures, analysis, List.eq_nil_iff_forall_not_mem]

end SpecForm.Form
