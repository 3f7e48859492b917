import SpecForm.Proofs.Form.Inheritance
import SpecForm.Proofs.Form.Names
import SpecForm.Proofs.Naming.Identifiers

/-!
# Names of controls

The controls of a form have properties of different names.  The name of a control is the identifier
that is made of the name of its property, which loses what cannot be in an identifier; so controls
have different names just if these identifiers differ, and names that are identifiers already stay
as they are.
-/

namespace SpecForm.Form

open Schema Control

def fieldNames (controls : List Control) : List String :=
  controls.map fun control => control.field.name

/-- The controls of one form: their properties have different names, and the name of each is made
of that of its property. -/
structure WellNamed (controls : List Control) : Prop where
  nodup : (propertyNames controls).Nodup
  named : ∀ control ∈ controls, control.field.name = Naming.identifier control.field.propertyName

namespace WellNamed

variable {controls : List Control}

theorem nil : WellNamed [] := ⟨List.nodup_nil, nofun⟩

theorem fieldNames_eq (h : WellNamed controls) :
    fieldNames controls = (propertyNames controls).map Naming.identifier := by
  rw [fieldNames, propertyNames, List.map_map]
  exact List.map_congr_left h.named

theorem nodup_fieldNames_iff (h : WellNamed controls) :
    (fieldNames controls).Nodup ↔ ∀ name ∈ propertyNames controls,
      ∀ other ∈ propertyNames controls,
        Naming.identifier name = Naming.identifier other → name = other := by
  rw [h.fieldNames_eq, List.nodup_map_iff_inj_on h.nodup]

theorem nodup_fieldNames (h : WellNamed controls)
    (husable : ∀ name ∈ propertyNames controls, Naming.IsUsable name) :
    (fieldNames controls).Nodup := by
  refine h.nodup_fieldNames_iff.mpr fun name hname other hother hsame => ?_
  rwa [Naming.identifier_eq_self (husable name hname),
    Naming.identifier_eq_self (husable other hother)] at hsame

end WellNamed

/-! ## Forms -/

variable {resolver : Resolver} {depth : Nat} {active : List (Key × String)} {property : Property}
  {groupName : Option String} {properties : List Property}

theorem nodup_shown (h : (properties.map Property.name).Nodup) :
    (shown resolver properties).Nodup :=
  h.sublist (List.filter_sublist.map Property.name)

theorem Builds.name_eq {built : Built}
    (h : Builds resolver depth active property groupName (some built)) :
    built.1.field.name = Naming.identifier built.1.field.propertyName := by
  obtain ⟨_, _, -, hfield⟩ := h.exists_field
  rw [hfield]
  rfl

theorem wellNamed_filterMap {outcomes : Property → Option Built}
    (hnodup : (properties.map Property.name).Nodup)
    (h : ∀ property ∈ properties,
      Builds resolver depth active property none (outcomes property)) :
    WellNamed ((properties.filterMap outcomes).map Prod.fst) where
  nodup := by
    rw [propertyNames_filterMap h]
    exact nodup_shown hnodup
  named := List.forall_mem_map.mpr fun built hbuilt => by
    obtain ⟨property, hproperty, houtcome⟩ := List.mem_filterMap.mp hbuilt
    exact (houtcome ▸ h property hproperty).name_eq

theorem wellNamed_tops {tops : List TopProperty} (hnodup : (properties.map Property.name).Nodup)
    (h : List.Forall₂ (BuildsTop resolver depth active) properties tops) :
    WellNamed (tops.filterMap TopProperty.control) where
  nodup := by
    rw [propertyNames_tops h]
    exact nodup_shown hnodup
  named control hcontrol := by
    obtain ⟨top, htop, hsome⟩ := List.mem_filterMap.mp hcontrol
    obtain ⟨property, -, hbuilds⟩ := Walk.exists_mem_of_forall₂ h htop
    cases hbuilds with
    | @intro _ built _ hbuilds =>
        obtain ⟨built, rfl, rfl⟩ := Option.map_eq_some_iff.mp hsome
        exact hbuilds.name_eq

theorem formOf_fst (form : String) (built : List Built) :
    (formOf form built).1 = built.map Prod.fst := rfl

theorem wellNamed_formsOf {form : String} {built : List Built}
    (h : ∀ inner ∈ built, ∀ nested ∈ inner.1.forms, WellNamed nested.2) :
    ∀ nested ∈ formsOf (formOf form built).1, WellNamed nested.2 := by
  rw [formOf_fst, formsOf_map]
  exact List.forall_mem_flatMap.mpr h

theorem Builds.wellNamed {result : Option Built}
    (h : Builds resolver depth active property groupName result) :
    ∀ built ∈ result, ∀ form ∈ built.1.forms, WellNamed form.2 := by
  induction h with
  | unresolved => exact nofun
  | plain | list =>
      rintro _ ⟨⟩
      exact List.forall_mem_nil _
  | enclosed hholds _ | cut hholds _ =>
      rintro _ ⟨⟩
      rw [hholds.forms_wrap]
      simpa [formsOf] using WellNamed.nil
  | @expanded _ _ _ _ schema _ _ _ hholds _ hinner ih =>
      rintro _ ⟨⟩ form hform
      rw [expandedOf, hholds.forms_wrap] at hform
      rcases List.mem_append.mp hform with hbelow | hown
      · refine wellNamed_formsOf (fun built hbuilt => ?_) form hbelow
        obtain ⟨inner, hmem, houtcome⟩ := List.mem_filterMap.mp hbuilt
        exact ih inner hmem built houtcome
      · rw [List.mem_singleton.mp hown, formOf_fst]
        dsimp only
        exact wellNamed_filterMap (nodup_mergedProperties resolver schema) hinner
  | @map _ _ _ _ _ value _ _ _ _ ih =>
      rintro _ ⟨⟩
      cases value with
      | none => exact List.forall_mem_nil _
      | some value => exact ih value rfl

theorem nodup_variantProperties (discriminator : Discriminator) (branch : Node) :
    ((variantProperties resolver discriminator branch).map Property.name).Nodup := by
  have hnodup := nodup_mergedProperties resolver branch
  exact hnodup.sublist (List.filter_sublist.map Property.name)

theorem Varies.wellNamed {discriminator : Discriminator} {branch : Node} {variant : Variant}
    {interfaces : List Interface}
    (h : Varies resolver depth active discriminator branch variant interfaces) :
    WellNamed variant.controls ∧ ∀ form ∈ formsOf variant.controls, WellNamed form.2 := by
  cases h with
  | @intro schema _ nested outcomes _ _ houtcomes hform hcontrols =>
      subst hform
      rw [hcontrols]
      constructor
      · rw [formOf_fst]
        exact wellNamed_filterMap (nodup_variantProperties discriminator schema) houtcomes
      · refine wellNamed_formsOf fun built hbuilt => ?_
        obtain ⟨inner, hinner, houtcome⟩ := List.mem_filterMap.mp hbuilt
        exact (houtcomes inner hinner).wellNamed built houtcome

/-! ## Models -/

/-- The model was made of a schema, or of the schema of a name. -/
inductive Resource.Made (resolver : Resolver) : Resource → Prop where
  | schema (modelName : String) (schema : Node) :
      Made resolver (.ofSchema resolver modelName schema)
  | component {dialect : Dialect} {name : String} {resource : Resource} :
      ofComponent resolver dialect name = .ok resource → Made resolver resource

theorem Resource.Made.nodup {resource : Resource} (h : resource.Made resolver) :
    (resource.properties.map Property.name).Nodup := by
  have hschema : ∀ modelName schema,
      ((ofSchema resolver modelName schema).properties.map Property.name).Nodup := by
    intro modelName schema
    cases hresolve : resolver.resolve schema with
    | none => simp [ofSchema, hresolve]
    | some resolved =>
        simp only [ofSchema, hresolve, Option.elim_some]
        exact nodup_mergedProperties resolver resolved
  cases h with
  | schema modelName schema => exact hschema modelName schema
  | component hcomponent =>
      unfold ofComponent at hcomponent
      split at hcomponent
      · cases hcomponent
        exact hschema _ _
      · cases hcomponent

/-- The controls of each form of an analysis: of the top-level one, of the nested ones and of the
variants. -/
def Analysis.controlLists (analysis : Analysis) : List (List Control) :=
  analysis.controls :: analysis.forms.map Prod.snd ++
    analysis.variantSets.flatMap fun set => set.variants.map Variant.controls

theorem VariesAll.wellNamed {set : VariantSet} {interfaces : List Interface}
    (h : VariesAll resolver depth active property set interfaces) :
    ∀ variant ∈ set.variants,
      WellNamed variant.controls ∧ ∀ form ∈ formsOf variant.controls, WellNamed form.2 := by
  cases h with
  | intro _ hmembers hvariants =>
      rw [hvariants]
      refine List.forall_mem_map.mpr fun entry hentry => ?_
      obtain ⟨_, -, hvaries⟩ := hmembers entry hentry
      exact hvaries.wellNamed

theorem analyze_wellNamed {resource : Resource} (hmade : resource.Made resolver) :
    ∀ controls ∈ (analyze resolver depth resource).controlLists, WellNamed controls := by
  obtain ⟨tops, htops, hcontrols, hsets, -, -⟩ := exists_tops resolver depth resource
  have hvariants : ∀ set ∈ (analyze resolver depth resource).variantSets,
      ∀ variant ∈ set.variants,
        WellNamed variant.controls ∧ ∀ form ∈ formsOf variant.controls, WellNamed form.2 := by
    intro set hset
    obtain ⟨top, htop, hsome⟩ := List.mem_filterMap.mp (hsets ▸ hset)
    obtain ⟨property, -, hbuilds⟩ := Walk.exists_mem_of_forall₂ htops htop
    cases hbuilds with
    | intro hvaries _ =>
        obtain ⟨entry, hentry, rfl⟩ := Option.map_eq_some_iff.mp hsome
        exact (hvaries entry hentry).wellNamed
  have htop : ∀ form ∈ formsOf (analyze resolver depth resource).controls, WellNamed form.2 := by
    rw [hcontrols, formsOf_filterMap]
    refine List.forall_mem_flatMap.mpr fun top htop => ?_
    obtain ⟨property, -, hbuilds⟩ := Walk.exists_mem_of_forall₂ htops htop
    cases hbuilds with
    | @intro _ built _ hbuilds =>
        cases built with
        | none => exact nofun
        | some built => simpa [formsOf] using hbuilds.wellNamed built rfl
  simp only [Analysis.controlLists, Analysis.forms, VariantSet.forms, List.forall_mem_append,
    List.forall_mem_cons, List.forall_mem_map, List.forall_mem_flatMap]
  refine ⟨⟨hcontrols ▸ wellNamed_tops hmade.nodup htops, htop, ?_⟩, ?_⟩
  · exact fun set hset variant hvariant => (hvariants set hset variant hvariant).2
  · exact fun set hset variant hvariant => (hvariants set hset variant hvariant).1

/--
The controls of a form, be it the form of a model, one nested in it at any depth or that of a
variant, have properties of different names.  Their own names are made of these, so they differ
just if no two of the names give the same identifier; which they do not if all of them are
identifiers that can be used as they are.
-/
theorem controls_named (resolver : Resolver) (depth : Nat) (resource : Resource)
    (hmade : resource.Made resolver) :
    ∀ controls ∈ (analyze resolver depth resource).controlLists,
      (propertyNames controls).Nodup ∧
        fieldNames controls = (propertyNames controls).map Naming.identifier ∧
        ((fieldNames controls).Nodup ↔ ∀ name ∈ propertyNames controls,
          ∀ other ∈ propertyNames controls,
            Naming.identifier name = Naming.identifier other → name = other) ∧
        ((∀ name ∈ propertyNames controls, Naming.IsUsable name) → (fieldNames controls).Nodup) := by
  intro controls hmem
  have hnamed := analyze_wellNamed hmade controls hmem
  exact ⟨hnamed.nodup, hnamed.fieldNames_eq, hnamed.nodup_fieldNames_iff, hnamed.nodup_fieldNames⟩

def person : Json := .object [("properties", .object
  [("name", .object []), ("home-address", .object [("properties", .object
    [("street", .object []), ("zip-code", .object [])])])])]

theorem controls_named_person :
    let resolver := Resolver.new (.ofDocuments [("person.json", person)]) "person.json"
    ∃ node ∈ resolver.store.get? "person.json",
      let lists := (analyze resolver 32 (.ofSchema resolver "Person" node)).controlLists
      lists.map fieldNames = [["name", "homeAddress"], ["street", "zipCode"]] ∧
        ∀ controls ∈ lists, (propertyNames controls).Nodup ∧ (fieldNames controls).Nodup := by
  intro resolver
  have hrun : ∃ node ∈ resolver.store.get? "person.json",
      let lists := (analyze resolver 32 (.ofSchema resolver "Person" node)).controlLists
      lists.map fieldNames = [["name", "homeAddress"], ["street", "zipCode"]] ∧
        ∀ controls ∈ lists, ∀ name ∈ propertyNames controls, ∀ other ∈ propertyNames controls,
          Naming.identifier name = Naming.identifier other → name = other := by
    decide +kernel
  obtain ⟨node, hnode, hnames, hapart⟩ := hrun
  refine ⟨node, hnode, hnames, fun controls hcontrols => ?_⟩
  obtain ⟨hnodup, -, hiff, -⟩ := controls_named resolver 32 (.ofSchema resolver "Person" node)
    (.schema "Person" node) controls hcontrols
  exact ⟨hnodup, hiff.mpr (hapart controls hcontrols)⟩

/-! ## Names that clash -/

def clash : Json := .object [("properties", .object
  [("foo-bar", .object []), ("fooBar", .object [])])]

/-- Two properties of a model have controls of the same name. -/
theorem exists_controls_of_one_name :
    let resolver := Resolver.new (.ofDocuments [("clash.json", clash)]) "clash.json"
    ∃ node ∈ resolver.store.get? "clash.json",
      let controls := (analyze resolver 32 (.ofSchema resolver "Clash" node)).controls
      propertyNames controls = ["foo-bar", "fooBar"] ∧ fieldNames controls = ["fooBar", "fooBar"] ∧
        ¬(fieldNames controls).Nodup := by
  decide +kernel

end SpecForm.Form
