import SpecForm.Proofs.Form.Interfaces

/-!
# How controls are built

What a property comes to depends on the schemas that are being expanded around it and on how
deep the walk may still go, and on nothing else.  The rules say which control is built, with
which interfaces; the features are those that the control calls for.  The walk follows the
rules, so what is to be said about all that it builds is said by induction on them.
-/

namespace SpecForm.Form

open Schema

/-! ## What controls show -/

namespace Control

def isFormList (control : Control) : Bool :=
  control.typeName = "array" && control.nested?.isSome

def isMap (control : Control) : Bool := control.typeName = "map"

def ownFeatures (control : Control) : Features :=
  ⟨control.field.rules.any Rule.needsCustomValidator, control.isFormList,
    isFileType control.field.dataType, control.isMap, false⟩

/-- The features that controls call for, with all controls inside them. -/
def features (controls : List Control) : Features :=
  Walk.joined ((partsOf controls).map ownFeatures)

def propertyNames (controls : List Control) : List String :=
  controls.map fun control => control.field.propertyName

def inside : Control → List Control
  | .group _ _ controls | .formList _ _ controls => controls
  | .map _ value _ => [value]
  | .plain _ | .list _ => []

def shapeFeatures (control : Control) : Features :=
  ⟨false, control.isFormList, false, control.isMap, false⟩

theorem parts_eq (control : Control) : control.parts = control :: partsOf control.inside := by
  cases control <;> simp [parts, partsOf, inside]

theorem partsOf_append (front back : List Control) :
    partsOf (front ++ back) = partsOf front ++ partsOf back := by
  induction front with
  | nil => rfl
  | cons control rest ih => rw [List.cons_append, partsOf, partsOf, ih, List.append_assoc]

end Control

open Control

/-! ## Outcomes -/

namespace Walk

variable {α β : Type} {active : List (Key × String)} {part : WalkM α}
  {post : α → Features → Prop}

theorem joined_append (front back : List Features) :
    joined (front ++ back) = (joined front).join (joined back) := by
  induction front with
  | nil => exact (Features.none_join _).symm
  | cons first rest ih =>
      rw [List.cons_append, joined, List.foldr_cons, ← joined, ih, ← Features.join_assoc]
      rfl

end Walk

namespace Control

@[simp] theorem features_nil : features [] = .none := rfl

theorem features_append (front back : List Control) :
    features (front ++ back) = (features front).join (features back) := by
  rw [features, partsOf_append, List.map_append, Walk.joined_append]
  rfl

theorem features_singleton (control : Control) :
    features [control] = control.ownFeatures.join (features control.inside) := by
  rw [features, partsOf, partsOf, List.append_nil, parts_eq]
  rfl

theorem join_marks (control : Control) (inner : Features) :
    Features.join
        (if control.field.rules.any Rule.needsCustomValidator then
          { Features.none with usesCustomValidators := true } else .none)
        ((control.shapeFeatures.join inner).join
          (Features.join
            (if isFileType control.field.dataType then
              { Features.none with hasFileUploads := true } else .none) .none)) =
      control.ownFeatures.join inner := by
  cases inner
  cases hcustom : control.field.rules.any Rule.needsCustomValidator <;>
    cases hfile : isFileType control.field.dataType <;>
      simp [Features.join, Features.none, ownFeatures, shapeFeatures, hcustom, hfile]

theorem features_filterMap {α : Type} (outcomes : α → Option Built) (list : List α) :
    features ((list.filterMap outcomes).map Prod.fst) =
      Walk.joined (list.map fun item => features ((outcomes item).toList.map Prod.fst)) := by
  induction list with
  | nil => rfl
  | cons item rest ih =>
      rw [List.map_cons, Walk.joined, List.foldr_cons, ← Walk.joined, ← ih, ← features_append,
        ← List.map_append, List.filterMap_cons]
      cases outcomes item <;> rfl

end Control

namespace Walk

variable {α β : Type} {active : List (Key × String)} {part : WalkM α}
  {post : α → Features → Prop}

def outcome (active : List (Key × String)) (part : WalkM α) : α × Features :=
  ((part.run ⟨.none, active⟩).1, (part.run ⟨.none, active⟩).2.features)

theorem Gives.and_outcome (h : Gives active part post) :
    Gives active part fun result added =>
      post result added ∧ outcome active part = (result, added) := by
  obtain ⟨result, added, hpost, hrun⟩ := h
  exact ⟨result, added, ⟨hpost, by rw [outcome, hrun, Features.none_join]⟩, hrun⟩

theorem Gives.filterMapM_outcome {list : List α} {build : α → WalkM (Option β)}
    {post : α → Option β → Features → Prop}
    (h : ∀ item ∈ list, Gives active (build item) (post item)) :
    Gives active (list.filterMapM build) fun results added =>
      ∃ outcomes : α → Option β × Features,
        (∀ item ∈ list, post item (outcomes item).1 (outcomes item).2) ∧
          results = list.filterMap (fun item => (outcomes item).1) ∧
          added = joined (list.map fun item => (outcomes item).2) := by
  refine (filterMapM fun item hitem => (h item hitem).and_outcome).mono ?_
  rintro _ _ ⟨outcomes, houtcomes, rfl, rfl⟩
  refine ⟨fun item => outcome active (build item), ?_⟩
  clear h
  dsimp only
  induction houtcomes with
  | nil => simp
  | @cons item found list rest hfirst _ ih =>
      obtain ⟨hpost, houtcome⟩ := hfirst
      obtain ⟨hrest, hresults, hadded⟩ := ih
      refine ⟨List.forall_mem_cons.mpr ⟨by rwa [houtcome], hrest⟩, ?_, ?_⟩
      · rw [List.filterMap_cons, List.filterMap_cons, houtcome, hresults]
      · rw [List.map_cons, List.map_cons, houtcome, joined, List.foldr_cons, ← joined, hadded]
        rfl

theorem Gives.mapM_measured {list : List α} {build : α → WalkM β} {relation : α → β → Prop}
    {measure : β → Features}
    (h : ∀ item ∈ list, Gives active (build item) fun result added =>
      relation item result ∧ added = measure result) :
    Gives active (list.mapM build) fun results added =>
      List.Forall₂ relation list results ∧ added = joined (results.map measure) := by
  refine (mapM h).mono ?_
  rintro _ _ ⟨outcomes, houtcomes, rfl, rfl⟩
  clear h
  induction houtcomes with
  | nil => exact ⟨.nil, rfl⟩
  | cons hfirst _ ih =>
      obtain ⟨hrelation, hadded⟩ := hfirst
      refine ⟨.cons hrelation ih.1, ?_⟩
      rw [List.map_cons, List.map_cons, List.map_cons, joined, List.foldr_cons, ← joined, ih.2,
        hadded]
      rfl

theorem exists_mem_of_forall₂ {relation : α → β → Prop} {list : List α} {results : List β}
    (h : List.Forall₂ relation list results) {result : β} (hresult : result ∈ results) :
    ∃ item ∈ list, relation item result := by
  induction h with
  | nil => cases hresult
  | cons hfirst _ ih =>
      rcases List.mem_cons.mp hresult with rfl | hrest
      · exact ⟨_, List.mem_cons_self, hfirst⟩
      · obtain ⟨item, hitem, hrelation⟩ := ih hrest
        exact ⟨item, List.mem_cons_of_mem _ hitem, hrelation⟩

end Walk

/-! ## Rules -/

/-- The form into which a schema is being expanded. -/
def enclosing? (active : List (Key × String)) (schema : Node) : Option String :=
  schema.key?.bind fun key => active.lookup key

theorem nodup_under {active : List (Key × String)} {schema : Node}
    (h : (active.map Prod.fst).Nodup) (hnone : enclosing? active schema = none) (form : String) :
    ((Walk.under active schema form).map Prod.fst).Nodup := by
  unfold Walk.under
  cases hkey : schema.key? with
  | none => simpa using h
  | some key =>
      rw [enclosing?, hkey, Option.bind_some, List.lookup_eq_none_iff] at hnone
      have hfresh : key ∉ active.map Prod.fst := by
        intro hmem
        obtain ⟨entry, hentry, rfl⟩ := List.mem_map.mp hmem
        simpa using hnone entry hentry
      rw [Option.map_some, Option.toList_some, List.map_append]
      exact List.concat_eq_append ▸ h.concat hfresh

namespace Property

def field (property : Property) (schema : Node) (dataType : String) : Field :=
  let keywords := Keywords.ofNode schema
  fieldOf property keywords (Rule.ofKeywords keywords property.required) dataType

def valueForm (property : Property) : String := Naming.pascalCase property.name ++ "ValueForm"

end Property

def valueProperty (resolver : Resolver) (schema : Node) : Property :=
  ⟨"value", (mapParts resolver schema).2, false⟩

def unknownBuilt : Built := (unknownValue, [])

def mapOf (resolver : Resolver) (property : Property) (schema : Node) (value : Built) : Built :=
  (.map (property.field schema ("Record<string, " ++ value.1.field.dataType ++ ">")) value.1
    (mapParts resolver schema).1, value.2)

def formOf (form : String) (built : List Built) : List Control × List Interface :=
  let controls := built.map Prod.fst
  (controls, built.flatMap Prod.snd ++ [⟨form, propertyNames controls, false⟩])

/-- The control of a property holds a form of a schema, of its own or of the items of its
own, under a name; `wrap` makes the control of a name and the controls of the form. -/
inductive Holds (resolver : Resolver) (property : Property) (groupName : Option String) :
    Node → String → (String → List Control → Control) → Prop where
  | group {schema : Node} : resolver.resolve property.schema = some schema →
      classify schema (Keywords.ofNode schema) = .group →
      Holds resolver property groupName schema (groupName.getD (formName property.name))
        fun form => .group (property.field schema form) form
  | items {schema items : Node} : resolver.resolve property.schema = some schema →
      classify schema (Keywords.ofNode schema) = .array →
      ((schema.member? "items").bind resolver.resolve).filter hasProperties = some items →
      Holds resolver property groupName items (formName (Naming.singular property.name))
        fun form => .formList (property.field schema (form ++ "[]")) form

def expandedOf (resolver : Resolver) (schema : Node) (form : String)
    (wrap : String → List Control → Control) (outcomes : Property → Option Built) : Built :=
  let nested := formOf form ((mergedProperties resolver schema).filterMap outcomes)
  (wrap form nested.1, nested.2)

/-- Whether a schema has a control without controls inside, one that is no list: also a map
beneath itself, and a map where the walk goes no deeper. -/
def IsPlain (depth : Nat) (active : List (Key × String)) (schema : Node) : Prop :=
  match classify schema (Keywords.ofNode schema) with
  | .leaf => True
  | .map => depth = 0 ∨ (enclosing? active schema).isSome
  | .group | .array => False

/-- What a property comes to, inside the schemas that are being expanded and with so many
levels beneath it; under the given name if it is a group. -/
inductive Builds (resolver : Resolver) :
    Nat → List (Key × String) → Property → Option String → Option Built → Prop where
  | unresolved {depth : Nat} {active : List (Key × String)} {property : Property}
      {groupName : Option String} : resolver.resolve property.schema = none →
      Builds resolver depth active property groupName none
  | plain {depth : Nat} {active : List (Key × String)} {property : Property}
      {groupName : Option String} {schema : Node} :
      resolver.resolve property.schema = some schema → IsPlain depth active schema →
      Builds resolver depth active property groupName
        (some (.plain (property.field schema (typeText resolver property.schema)), []))
  | list {depth : Nat} {active : List (Key × String)} {property : Property}
      {groupName : Option String} {schema : Node} :
      resolver.resolve property.schema = some schema →
      classify schema (Keywords.ofNode schema) = .array →
      ((schema.member? "items").bind resolver.resolve).filter hasProperties = none →
      Builds resolver depth active property groupName
        (some (.list (property.field schema (typeText resolver schema)), []))
  | enclosed {depth : Nat} {active : List (Key × String)} {property : Property}
      {groupName : Option String} {schema : Node} {form outer : String}
      {wrap : String → List Control → Control} :
      Holds resolver property groupName schema form wrap →
      enclosing? active schema = some outer →
      Builds resolver depth active property groupName (some (wrap outer [], []))
  | cut {active : List (Key × String)} {property : Property} {groupName : Option String}
      {schema : Node} {form : String} {wrap : String → List Control → Control} :
      Holds resolver property groupName schema form wrap → enclosing? active schema = none →
      Builds resolver 0 active property groupName (some (wrap form [], [⟨form, [], false⟩]))
  | expanded {depth : Nat} {active : List (Key × String)} {property : Property}
      {groupName : Option String} {schema : Node} {form : String}
      {wrap : String → List Control → Control} {outcomes : Property → Option Built} :
      Holds resolver property groupName schema form wrap → enclosing? active schema = none →
      (∀ inner ∈ mergedProperties resolver schema,
        Builds resolver depth (Walk.under active schema form) inner none (outcomes inner)) →
      Builds resolver (depth + 1) active property groupName
        (some (expandedOf resolver schema form wrap outcomes))
  | map {depth : Nat} {active : List (Key × String)} {property : Property}
      {groupName : Option String} {schema : Node} {value : Option Built} :
      resolver.resolve property.schema = some schema →
      classify schema (Keywords.ofNode schema) = .map → enclosing? active schema = none →
      Builds resolver depth (Walk.under active schema property.valueForm)
        (valueProperty resolver schema) (some property.valueForm) value →
      Builds resolver (depth + 1) active property groupName
        (some (mapOf resolver property schema (value.getD unknownBuilt)))

theorem Builds.exists_field {resolver : Resolver} {depth : Nat} {active : List (Key × String)}
    {property : Property} {groupName : Option String} {built : Built}
    (h : Builds resolver depth active property groupName (some built)) :
    ∃ schema dataType, resolver.resolve property.schema = some schema ∧
      built.1.field = property.field schema dataType := by
  have hholds : ∀ {schema form wrap}, Holds resolver property groupName schema form wrap →
      ∀ name controls, ∃ schema dataType, resolver.resolve property.schema = some schema ∧
        (wrap name controls).field = property.field schema dataType := by
    intro schema form wrap hholds name controls
    cases hholds with
    | group hresolve _ => exact ⟨_, _, hresolve, rfl⟩
    | items hresolve _ _ => exact ⟨_, _, hresolve, rfl⟩
  cases h with
  | plain hresolve _ => exact ⟨_, _, hresolve, rfl⟩
  | list hresolve _ _ => exact ⟨_, _, hresolve, rfl⟩
  | enclosed h _ => exact hholds h _ _
  | cut h _ => exact hholds h _ _
  | expanded h _ _ => exact hholds h _ _
  | map hresolve _ _ _ => exact ⟨_, _, hresolve, rfl⟩

theorem Builds.isSome_iff {resolver : Resolver} {depth : Nat} {active : List (Key × String)}
    {property : Property} {groupName : Option String} {result : Option Built}
    (h : Builds resolver depth active property groupName result) :
    result.isSome ↔ (resolver.resolve property.schema).isSome := by
  cases result with
  | none =>
      cases h with
      | unresolved hresolve => simp [hresolve]
  | some built =>
      obtain ⟨schema, _, hresolve, -⟩ := h.exists_field
      simp [hresolve]

/-! ## Following the rules -/

variable {resolver : Resolver} {depth : Nat} {active : List (Key × String)} {property : Property}
  {groupName : Option String} {schema : Node} {form : String}
  {wrap : String → List Control → Control}

def below (resolver : Resolver) : Nat → Deeper
  | 0 => none
  | depth + 1 => some (buildControl resolver depth)

theorem buildControl_eq (resolver : Resolver) (depth : Nat) :
    buildControl resolver depth = controlOf resolver (below resolver depth) := by
  cases depth <;> rfl

/-- What a builder gives keeps to the rules, and the features are those that it calls for. -/
def Follows (resolver : Resolver) (depth : Nat)
    (build : Property → Option String → WalkM (Option Built)) : Prop :=
  ∀ {active : List (Key × String)} (property : Property) (groupName : Option String),
    Walk.Gives active (build property groupName) fun result added =>
      Builds resolver depth active property groupName result ∧
        added = features (result.toList.map Prod.fst)

theorem follows_buildForm {build : Property → Option String → WalkM (Option Built)}
    (hbuild : Follows resolver depth build) (form : String) (properties : List Property) :
    Walk.Gives active (buildForm (build · none) form properties) fun result added =>
      ∃ outcomes : Property → Option Built,
        (∀ property ∈ properties, Builds resolver depth active property none (outcomes property)) ∧
          result = formOf form (properties.filterMap outcomes) ∧ added = features result.1 := by
  unfold buildForm
  refine (Walk.Gives.filterMapM_outcome fun property _ => hbuild property none).bind ?_
  rintro _ _ ⟨outcomes, houtcomes, rfl, rfl⟩
  refine .pure ⟨fun property => (outcomes property).1, fun property hproperty =>
    (houtcomes property hproperty).1, rfl, ?_⟩
  have hadded := List.map_congr_left fun property hproperty => (houtcomes property hproperty).2
  exact (Features.join_none _).trans ((congrArg Walk.joined hadded).trans
    (features_filterMap _ properties).symm)

section

variable (hdeeper : ∀ {levels : Nat}, depth = levels + 1 →
  Follows resolver levels (buildControl resolver levels))

include hdeeper

theorem follows_nestedForm (hholds : Holds resolver property groupName schema form wrap) :
    Walk.Gives active (nestedForm resolver (below resolver depth) schema form) fun nested added =>
      Builds resolver depth active property groupName
          (some (wrap nested.form nested.controls, nested.interfaces)) ∧
        added = features nested.controls := by
  unfold nestedForm
  refine .get (fun _ => rfl) ?_
  split
  · rename_i outer houter
    exact .pure ⟨.enclosed hholds houter, rfl⟩
  · rename_i hnone
    cases depth with
    | zero => exact .pure ⟨.cut hholds hnone, rfl⟩
    | succ levels =>
        refine (follows_buildForm (hdeeper rfl) form _).within ?_
        rintro ⟨controls, interfaces⟩ added ⟨outcomes, houtcomes, hform, hadded⟩
        have hbuilds := Builds.expanded hholds hnone houtcomes
        rw [expandedOf, ← hform] at hbuilds
        exact .pure ⟨hbuilds, (Features.join_none _).trans hadded⟩

theorem follows_mapControl {levels : Nat} (hdepth : depth = levels + 1)
    (hresolve : resolver.resolve property.schema = some schema)
    (hshape : classify schema (Keywords.ofNode schema) = .map)
    (hnone : enclosing? active schema = none) :
    Walk.Gives active (mapControl resolver (buildControl resolver levels) property schema
        (property.field schema)) fun built added =>
      Builds resolver depth active property groupName (some built) ∧
        added = built.1.shapeFeatures.join (features built.1.inside) := by
  subst hdepth
  unfold mapControl
  refine .mark { Features.none with hasMaps := true }
    (fun _ => by simp [Features.join, Features.none]) ?_
  have hvalue : Walk.Gives (Walk.under active schema property.valueForm) _ _ :=
    hdeeper rfl (valueProperty resolver schema) (some property.valueForm)
  refine hvalue.within fun value added hbuilds => .pure ?_
  obtain ⟨hbuilds, rfl⟩ := hbuilds
  refine ⟨.map hresolve hshape hnone hbuilds, ?_⟩
  have hunknown : features [unknownValue] = .none := by decide
  rw [Features.join_none]
  cases value with
  | none => exact congrArg (Features.join _) hunknown.symm
  | some value => rfl

theorem follows_arrayControl
    (hresolve : resolver.resolve property.schema = some schema)
    (hshape : classify schema (Keywords.ofNode schema) = .array) :
    Walk.Gives active (arrayControl resolver (below resolver depth) property schema
        (property.field schema)) fun built added =>
      Builds resolver depth active property groupName (some built) ∧
        added = built.1.shapeFeatures.join (features built.1.inside) := by
  unfold arrayControl
  split
  · rename_i items hitems
    refine .mark { Features.none with hasFormArrays := true }
      (fun _ => by simp [Features.join, Features.none]) ?_
    have hholds : Holds resolver property groupName items _ _ := .items hresolve hshape hitems
    refine (follows_nestedForm hdeeper hholds).bind ?_
    rintro nested _ ⟨hbuilds, rfl⟩
    exact .pure ⟨hbuilds, by rw [Features.join_none]; rfl⟩
  · rename_i hnone
    exact .pure ⟨.list hresolve hshape hnone, rfl⟩

theorem follows_shapedControl (hresolve : resolver.resolve property.schema = some schema) :
    Walk.Gives active (shapedControl resolver (below resolver depth) property groupName schema
        (property.field schema)) fun built added =>
      Builds resolver depth active property groupName (some built) ∧
        added = built.1.shapeFeatures.join (features built.1.inside) := by
  unfold shapedControl
  dsimp only
  split
  · rename_i hshape
    refine (follows_nestedForm hdeeper (.group hresolve hshape)).bind ?_
    rintro nested _ ⟨hbuilds, rfl⟩
    exact .pure ⟨hbuilds, by rw [Features.join_none]; rfl⟩
  · rename_i hshape hdepth
    refine .pure ⟨.plain hresolve ?_, rfl⟩
    cases depth with
    | zero => simp [IsPlain, hshape]
    | succ levels => cases hdepth
  · rename_i build hshape hdepth
    refine .get (fun _ => rfl) ?_
    split
    · rename_i hsome
      exact .pure ⟨.plain hresolve (by rw [IsPlain, hshape]; exact .inr hsome), rfl⟩
    · rename_i hnone
      cases depth with
      | zero => cases hdepth
      | succ levels =>
          obtain rfl := Option.some.inj hdepth
          exact follows_mapControl hdeeper rfl hresolve hshape
            (Option.not_isSome_iff_eq_none.mp hnone)
  · rename_i hshape
    exact follows_arrayControl hdeeper hresolve hshape
  · rename_i hshape
    exact .pure ⟨.plain hresolve (by simp [IsPlain, hshape]), rfl⟩

end

theorem follows_controlOf (hdeeper : ∀ {levels : Nat}, depth = levels + 1 →
    Follows resolver levels (buildControl resolver levels)) :
    Follows resolver depth (controlOf resolver (below resolver depth)) := by
  intro active property groupName
  unfold controlOf
  split
  · rename_i hresolve
    exact .pure ⟨.unresolved hresolve, rfl⟩
  · rename_i schema hresolve
    refine .markIf { Features.none with usesCustomValidators := true }
      (fun _ => by simp [Features.join, Features.none]) ?_
    refine (follows_shapedControl hdeeper hresolve).bind fun built _ hbuilt => ?_
    obtain ⟨hbuilds, rfl⟩ := hbuilt
    refine .markIf { Features.none with hasFileUploads := true }
      (fun _ => by simp [Features.join, Features.none]) (.pure ⟨hbuilds, ?_⟩)
    obtain ⟨own, dataType, hown, hfield⟩ := hbuilds.exists_field
    obtain rfl := Option.some.inj (hresolve.symm.trans hown)
    have hrules : built.1.field.rules = Rule.ofKeywords (Keywords.ofNode schema)
        property.required := by rw [hfield]; rfl
    rw [← hrules, Option.toList_some, List.map_singleton, features_singleton]
    exact join_marks _ _

theorem follows_buildControl (resolver : Resolver) (depth : Nat) :
    Follows resolver depth (buildControl resolver depth) := by
  induction depth with
  | zero =>
      rw [buildControl_eq]
      exact follows_controlOf fun hdepth => absurd hdepth (by omega)
  | succ levels ih =>
      rw [buildControl_eq]
      refine follows_controlOf fun hdepth => ?_
      obtain rfl := Nat.succ.inj hdepth
      exact ih

end SpecForm.Form
