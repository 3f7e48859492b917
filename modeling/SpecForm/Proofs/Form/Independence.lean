import SpecForm.Proofs.Form.Names

/-!
# Properties on their own

The walk comes back from every property to the schemas that were being expanded before it, and
nothing that it has gathered by then is read again.  So what a property comes to does not depend
on the properties before it, and an analysis is put together from what its properties come to,
each on its own.
-/

namespace SpecForm.Form

open Control

/-! ## One after the other -/

namespace Walk

variable {α β : Type} {active : List (Key × String)}

theorem Gives.mapM_outcome {list : List α} {build : α → WalkM β}
    {post : α → β → Features → Prop}
    (h : ∀ item ∈ list, Gives active (build item) (post item)) :
    Gives active (list.mapM build) fun results added =>
      results = list.map (fun item => (outcome active (build item)).1) ∧
        added = joined (list.map fun item => (outcome active (build item)).2) := by
  refine (mapM fun item hitem => (h item hitem).and_outcome).mono ?_
  rintro _ _ ⟨outcomes, houtcomes, rfl, rfl⟩
  clear h
  induction houtcomes with
  | nil => exact ⟨rfl, rfl⟩
  | @cons item found list rest hfirst _ ih =>
      obtain ⟨-, houtcome⟩ := hfirst
      obtain ⟨hresults, hadded⟩ := ih
      constructor
      · rw [List.map_cons, List.map_cons, houtcome, hresults]
      · rw [List.map_cons, List.map_cons, houtcome, joined, List.foldr_cons, ← joined, hadded]
        rfl

end Walk

/-! ## Analyses -/

def ownOutcome (resolver : Resolver) (depth : Nat) (active : List (Key × String))
    (property : Property) : TopProperty × Features :=
  Walk.outcome active (buildTopProperty resolver depth property)

def analysisOf (resolver : Resolver) (modelName : String) (schema : Option Node)
    (outcomes : List (TopProperty × Features)) : Analysis :=
  let controls := outcomes.filterMap fun outcome => outcome.1.control
  { modelName := modelName
    form := formName modelName
    controls := controls
    interfaces := outcomes.flatMap (fun outcome => outcome.1.interfaces) ++
      [⟨formName modelName, propertyNames controls, true⟩]
    features := Walk.joined (outcomes.map Prod.snd)
    variantSets := outcomes.filterMap fun outcome => outcome.1.variants
    dependencies := schema.elim [] (dependencies resolver) }

theorem analyze_eq_analysisOf (resolver : Resolver) (depth : Nat) (resource : Resource) :
    analyze resolver depth resource =
      analysisOf resolver resource.modelName resource.schema
        (resource.properties.map (ownOutcome resolver depth resource.opened)) := by
  have hproperty : ∀ property ∈ resource.properties,
      Walk.Gives resource.opened (buildTopProperty resolver depth property) fun top added =>
        BuildsTop resolver depth resource.opened property top ∧ added = top.features :=
    fun property _ => follows_buildTopProperty property
  obtain ⟨_, _, ⟨rfl, rfl⟩, hanalyze⟩ := exists_analyze (Walk.Gives.mapM_outcome hproperty)
  rw [hanalyze, analysisOf]
  simp only [List.filterMap_map, List.flatMap_map, List.map_map]
  rfl

theorem ownOutcome_of_unresolved {resolver : Resolver} {property : Property}
    (h : resolver.resolve property.schema = none) (depth : Nat) (active : List (Key × String)) :
    ownOutcome resolver depth active property = (⟨none, none, []⟩, .none) := by
  have hvariants : buildVariants resolver depth property = pure none := by
    simp [buildVariants, h]
  have hcontrol : buildControl resolver depth property none = pure none := by
    simp [buildControl_eq, controlOf, h]
  rw [ownOutcome, buildTopProperty, hvariants, hcontrol]
  rfl

theorem analysisOf_skip (resolver : Resolver) (modelName : String) (schema : Option Node)
    (front back : List (TopProperty × Features)) :
    analysisOf resolver modelName schema (front ++ (⟨none, none, []⟩, .none) :: back) =
      analysisOf resolver modelName schema (front ++ back) := by
  have hjoined : ∀ all, Walk.joined (.none :: all) = Walk.joined all :=
    fun all => Features.none_join _
  simp only [analysisOf, List.filterMap_append, List.filterMap_cons, List.flatMap_append,
    List.flatMap_cons, List.nil_append, List.map_append, List.map_cons, Walk.joined_append, hjoined]

theorem analysisOf_map_filter {resolver : Resolver} {modelName : String} {schema : Option Node}
    {outcome : Property → TopProperty × Features} {kept : Property → Bool}
    (h : ∀ property, ¬kept property → outcome property = (⟨none, none, []⟩, .none))
    (properties : List Property) :
    analysisOf resolver modelName schema ((properties.filter kept).map outcome) =
      analysisOf resolver modelName schema (properties.map outcome) := by
  suffices ∀ front : List (TopProperty × Features),
      analysisOf resolver modelName schema (front ++ (properties.filter kept).map outcome) =
        analysisOf resolver modelName schema (front ++ properties.map outcome) from this []
  induction properties with
  | nil => exact fun front => rfl
  | cons property rest ih =>
      intro front
      by_cases hkept : kept property
      · have hrest := ih (front ++ [outcome property])
        rw [List.append_assoc, List.append_assoc] at hrest
        rwa [List.filter_cons_of_pos hkept]
      · rw [List.filter_cons_of_neg hkept, ih front, List.map_cons, h property hkept,
          analysisOf_skip]

/--
A model may be analysed in two parts.  Whatever the documents, the depth, the model's name and
its schema: the controls of all properties are those of the first followed by those of the
others, and so are the variants; the interfaces are those of the first and those of the others,
without the interface of the model itself, which comes last and once; and the features are those
that either part has.  The first properties have a control each, in their order, if their schema
leads anywhere; one that leads nowhere may be left out, and the analysis is the same.
-/
theorem analyze_append (resolver : Resolver) (depth : Nat) (modelName : String)
    (schema : Option Node) (front back : List Property) :
    let build (properties : List Property) :=
      analyze resolver depth ⟨modelName, properties, schema⟩
    let leads (property : Property) : Bool := (resolver.resolve property.schema).isSome
    (build (front ++ back)).controls = (build front).controls ++ (build back).controls ∧
      (build (front ++ back)).variantSets =
        (build front).variantSets ++ (build back).variantSets ∧
      (build (front ++ back)).interfaces =
        (build front).interfaces.dropLast ++ (build back).interfaces.dropLast ++
          [⟨formName modelName, propertyNames (build (front ++ back)).controls, true⟩] ∧
      (build (front ++ back)).features = (build front).features.join (build back).features ∧
      propertyNames (build front).controls = (front.filter leads).map Property.name ∧
      build (front.filter leads) = build front := by
  intro build leads
  let active := Resource.opened ⟨modelName, [], schema⟩
  have hbuild : ∀ properties, build properties =
      analysisOf resolver modelName schema (properties.map (ownOutcome resolver depth active)) :=
    fun properties => analyze_eq_analysisOf resolver depth ⟨modelName, properties, schema⟩
  refine ⟨?_, ?_, ?_, ?_, ?_, ?_⟩
  · simp only [hbuild, analysisOf, List.map_append, List.filterMap_append]
  · simp only [hbuild, analysisOf, List.map_append, List.filterMap_append]
  · simp only [hbuild, analysisOf, List.map_append, List.flatMap_append, List.dropLast_concat]
  · simp only [hbuild, analysisOf, List.map_append, Walk.joined_append]
  · obtain ⟨tops, htops, hcontrols, -⟩ :=
      exists_tops resolver depth ⟨modelName, front, schema⟩
    exact (congrArg propertyNames hcontrols).trans (propertyNames_tops htops)
  · rw [hbuild, hbuild]
    refine analysisOf_map_filter (fun property hkept => ?_) front
    exact ownOutcome_of_unresolved (Option.not_isSome_iff_eq_none.mp hkept) depth active

end SpecForm.Form
