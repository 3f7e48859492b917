import Mathlib.Data.List.Forall2
import SpecForm.Form.Analyze

/-!
# What a part of a walk gives

Every part of a walk comes back to the schemas that were being expanded when it began, and
takes no feature back.  Whatever features there were, it gives the same result and adds the
same features; so all that is to be said about a part is a property of these two, and it
follows from those of the parts that it is made of.
-/

namespace SpecForm.Form

namespace Features

def join (features other : Features) : Features :=
  ⟨features.usesCustomValidators || other.usesCustomValidators,
    features.hasFormArrays || other.hasFormArrays, features.hasFileUploads || other.hasFileUploads,
    features.hasMaps || other.hasMaps, features.isPolymorphic || other.isPolymorphic⟩

@[simp] theorem join_none (features : Features) : features.join none = features := by
  simp [join, none]

@[simp] theorem none_join (features : Features) : none.join features = features := by
  simp [join, none]

theorem join_assoc (features other more : Features) :
    (features.join other).join more = features.join (other.join more) := by
  simp [join, Bool.or_assoc]

end Features

namespace Walk

variable {α β : Type} {active : List (Key × String)} {part : WalkM α} {next : α → WalkM β}
  {post : α → Features → Prop} {later : β → Features → Prop}
  {change : Features → Features} {schema : Node} {form : String}

def under (active : List (Key × String)) (schema : Node) (form : String) : List (Key × String) :=
  active ++ (schema.key?.map (·, form)).toList

theorem enter_eq (features : Features) (active : List (Key × String)) (schema : Node)
    (form : String) : enter ⟨features, active⟩ schema form = ⟨features, under active schema form⟩ := by
  unfold enter under
  cases schema.key? <;> simp

theorem leave_under (features : Features) (active : List (Key × String)) (schema : Node)
    (form : String) : leave ⟨features, under active schema form⟩ schema = ⟨features, active⟩ := by
  unfold leave under
  cases schema.key? <;> simp

/-- From a walk that expands `active`, a part comes back to `active`, and its result and the
features that it adds have a property. -/
def Gives (active : List (Key × String)) (part : WalkM α) (post : α → Features → Prop) : Prop :=
  ∃ result added, post result added ∧ ∀ features,
    part.run ⟨features, active⟩ = (result, ⟨features.join added, active⟩)

namespace Gives

theorem pure {result : α} (h : post result .none) : Gives active (Pure.pure result) post :=
  ⟨result, .none, h, fun features => by rw [Features.join_none]; rfl⟩

theorem mono {other : α → Features → Prop} (h : Gives active part post)
    (hmono : ∀ result added, post result added → other result added) : Gives active part other := by
  obtain ⟨result, added, hpost, hrun⟩ := h
  exact ⟨result, added, hmono result added hpost, hrun⟩

theorem bind (h : Gives active part post)
    (hnext : ∀ result added, post result added →
      Gives active (next result) fun final more => later final (added.join more)) :
    Gives active (part >>= next) later := by
  obtain ⟨result, added, hpost, hrun⟩ := h
  obtain ⟨final, more, hlater, hrest⟩ := hnext result added hpost
  refine ⟨final, added.join more, hlater, fun features => ?_⟩
  rw [StateT.run_bind, hrun, ← Features.join_assoc]
  exact hrest _

theorem get {next : Walk → WalkM α}
    (hindifferent : ∀ features, next ⟨features, active⟩ = next ⟨.none, active⟩)
    (h : Gives active (next ⟨.none, active⟩) post) :
    Gives active (MonadState.get >>= next) post := by
  obtain ⟨result, added, hpost, hrun⟩ := h
  refine ⟨result, added, hpost, fun features => ?_⟩
  rw [← hrun, ← hindifferent features]
  rfl

theorem mark (added : Features) (hchange : ∀ features, change features = features.join added)
    (h : Gives active part fun result more => post result (added.join more)) :
    Gives active (modify (Walk.mark change) >>= fun _ => part) post := by
  obtain ⟨result, more, hpost, hrun⟩ := h
  refine ⟨result, added.join more, hpost, fun features => ?_⟩
  rw [← Features.join_assoc, ← hchange, ← hrun]
  rfl

theorem markIf {condition : Prop} [Decidable condition] (added : Features)
    (hchange : ∀ features, change features = features.join added)
    (h : Gives active part fun result more =>
      post result ((if condition then added else .none).join more)) :
    Gives active (if condition then modify (Walk.mark change) >>= fun _ => part else part) post := by
  split at h
  · rename_i hcondition
    rw [if_pos hcondition]
    exact mark added hchange h
  · rename_i hcondition
    rw [if_neg hcondition]
    simpa only [Features.none_join] using h

theorem within (h : Gives (under active schema form) part post)
    (hnext : ∀ result added, post result added →
      Gives active (next result) fun final more => later final (added.join more)) :
    Gives active
      (modify (·.enter schema form) >>= fun _ => part >>= fun result =>
        modify (·.leave schema) >>= fun _ => next result) later := by
  obtain ⟨result, added, hpost, hrun⟩ := h
  obtain ⟨final, more, hlater, hrest⟩ := hnext result added hpost
  refine ⟨final, added.join more, hlater, fun features => ?_⟩
  calc StateT.run (modify (·.enter schema form) >>= fun _ => part >>= fun result =>
          modify (·.leave schema) >>= fun _ => next result) ⟨features, active⟩
      = (part >>= fun result => modify (·.leave schema) >>= fun _ => next result).run
          (Walk.enter ⟨features, active⟩ schema form) := rfl
    _ = (next result).run
          (Walk.leave ⟨features.join added, under active schema form⟩ schema) := by
        rw [enter_eq, StateT.run_bind, hrun]
        rfl
    _ = _ := by rw [leave_under, hrest, Features.join_assoc]

end Gives

/-! ## Lists -/

def joined (all : List Features) : Features := all.foldr Features.join .none

theorem Gives.mapM {list : List α} {build : α → WalkM β} {post : α → β → Features → Prop}
    (h : ∀ item ∈ list, Gives active (build item) (post item)) :
    Gives active (list.mapM build) fun results added => ∃ outcomes : List (β × Features),
      List.Forall₂ (fun item outcome => post item outcome.1 outcome.2) list outcomes ∧
        results = outcomes.map Prod.fst ∧ added = joined (outcomes.map Prod.snd) := by
  induction list with
  | nil =>
      rw [List.mapM_nil]
      exact pure ⟨[], .nil, rfl, rfl⟩
  | cons item rest ih =>
      rw [List.mapM_cons]
      refine (h item List.mem_cons_self).bind fun result added hresult => ?_
      refine (ih fun other hother => h other (List.mem_cons_of_mem _ hother)).bind ?_
      rintro _ _ ⟨outcomes, houtcomes, rfl, rfl⟩
      exact pure ⟨(result, added) :: outcomes, .cons hresult houtcomes, rfl, by simp [joined]⟩

theorem filterMapM_eq (list : List α) (build : α → WalkM (Option β)) :
    list.filterMapM build = list.mapM build >>= fun results => Pure.pure (results.filterMap id) := by
  induction list with
  | nil => simp
  | cons item rest ih =>
      rw [List.filterMapM_cons, List.mapM_cons, ih, bind_assoc]
      refine congrArg (build item >>= ·) (funext fun result => ?_)
      cases result <;> simp

theorem Gives.filterMapM {list : List α} {build : α → WalkM (Option β)}
    {post : α → Option β → Features → Prop}
    (h : ∀ item ∈ list, Gives active (build item) (post item)) :
    Gives active (list.filterMapM build) fun results added =>
      ∃ outcomes : List (Option β × Features),
        List.Forall₂ (fun item outcome => post item outcome.1 outcome.2) list outcomes ∧
          results = outcomes.filterMap Prod.fst ∧ added = joined (outcomes.map Prod.snd) := by
  rw [filterMapM_eq]
  refine (mapM h).bind ?_
  rintro _ _ ⟨outcomes, houtcomes, rfl, rfl⟩
  exact pure ⟨outcomes, houtcomes, by rw [List.filterMap_map]; rfl, Features.join_none _⟩

theorem forall_of_forall₂ (property : β → Prop) {list : List α} {outcomes : List (β × Features)}
    (h : List.Forall₂ (fun _ outcome => property outcome.1) list outcomes) :
    ∀ outcome ∈ outcomes, property outcome.1 := by
  induction h with
  | nil => simp
  | cons hfirst _ ih => exact List.forall_mem_cons.mpr ⟨hfirst, ih⟩

theorem Gives.forall_mapM {list : List α} {build : α → WalkM β} {property : β → Prop}
    (h : ∀ item ∈ list, Gives active (build item) fun result _ => property result) :
    Gives active (list.mapM build) fun results _ => ∀ result ∈ results, property result := by
  refine (mapM h).mono ?_
  rintro _ _ ⟨outcomes, houtcomes, rfl, -⟩ result hresult
  obtain ⟨outcome, houtcome, rfl⟩ := List.mem_map.mp hresult
  exact forall_of_forall₂ property houtcomes outcome houtcome

theorem Gives.forall_filterMapM {list : List α} {build : α → WalkM (Option β)}
    {property : β → Prop}
    (h : ∀ item ∈ list, Gives active (build item) fun result _ => ∀ value ∈ result, property value) :
    Gives active (list.filterMapM build) fun results _ => ∀ value ∈ results, property value := by
  refine (filterMapM h).mono ?_
  rintro _ _ ⟨outcomes, houtcomes, rfl, -⟩ value hvalue
  obtain ⟨outcome, houtcome, hsome⟩ := List.mem_filterMap.mp hvalue
  exact forall_of_forall₂ (fun result => ∀ value ∈ result, property value) houtcomes outcome
    houtcome value hsome

end Walk

/-! ## Models -/

/-- What is being expanded when the walk comes to the properties of a model. -/
def Resource.opened (resource : Resource) : List (Key × String) :=
  resource.schema.elim [] fun schema => Walk.under [] schema (formName resource.modelName)

theorem exists_analyze {resolver : Resolver} {depth : Nat} {resource : Resource}
    {post : List TopProperty → Features → Prop}
    (h : Walk.Gives resource.opened
      (resource.properties.mapM (buildTopProperty resolver depth)) post) :
    ∃ tops added, post tops added ∧
      let controls := tops.filterMap TopProperty.control
      let names := controls.map fun control => control.field.propertyName
      analyze resolver depth resource =
        { modelName := resource.modelName
          form := formName resource.modelName
          controls := controls
          interfaces := tops.flatMap TopProperty.interfaces ++
            [⟨formName resource.modelName, names, true⟩]
          features := added
          variantSets := tops.filterMap TopProperty.variants
          dependencies := resource.schema.elim [] (dependencies resolver) } := by
  obtain ⟨tops, added, hpost, hrun⟩ := h
  refine ⟨tops, added, hpost, ?_⟩
  have hstart : ∀ start, start = (⟨.none, resource.opened⟩ : Walk) →
      (resource.properties.mapM (buildTopProperty resolver depth)).run start =
        (tops, ⟨added, resource.opened⟩) := by
    rintro _ rfl
    rw [hrun, Features.none_join]
  dsimp only
  rw [analyze, hstart]
  unfold Resource.opened
  cases resource.schema with
  | none => rfl
  | some schema => exact Walk.enter_eq .none [] schema _

end SpecForm.Form
