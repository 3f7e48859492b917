import SpecForm.Proofs.Form.Levels
import SpecForm.Proofs.Form.Registry

/-!
# Names of interfaces

The name of a form is made of the name of the property that holds it, and properties of one
name may have different schemas at different places.  So an interface tells what some form of
its name shows, and it tells what all of them show only if they agree; where the walk goes no
deeper it tells nothing.
-/

namespace SpecForm.Form

open Schema Control

/-! ## Forms that the walk meets -/

/-- The properties that lead anywhere are those that a form shows. -/
def shown (resolver : Resolver) (properties : List Property) : List String :=
  (properties.filter fun property => (resolver.resolve property.schema).isSome).map Property.name

/-- Inside the schemas that are being expanded and with so many levels, the walk meets a form of
such a name for a property: its own, or one inside it.  The form is opened with properties,
or it is cut where there is no level for it. -/
inductive Meets (resolver : Resolver) : Nat → List (Key × String) → Property → Option String →
    String → Option (List Property) → Prop where
  | opened {depth : Nat} {active : List (Key × String)} {property : Property}
      {groupName : Option String} {schema : Node} {form : String}
      {wrap : String → List Control → Control} :
      Holds resolver property groupName schema form wrap → enclosing? active schema = none →
      Meets resolver (depth + 1) active property groupName form
        (some (mergedProperties resolver schema))
  | cut {active : List (Key × String)} {property : Property} {groupName : Option String}
      {schema : Node} {form : String} {wrap : String → List Control → Control} :
      Holds resolver property groupName schema form wrap → enclosing? active schema = none →
      Meets resolver 0 active property groupName form none
  | inside {depth : Nat} {active : List (Key × String)} {property inner : Property}
      {groupName : Option String} {schema : Node} {outer form : String}
      {wrap : String → List Control → Control} {found : Option (List Property)} :
      Holds resolver property groupName schema outer wrap → enclosing? active schema = none →
      inner ∈ mergedProperties resolver schema →
      Meets resolver depth (Walk.under active schema outer) inner none form found →
      Meets resolver (depth + 1) active property groupName form found
  | value {depth : Nat} {active : List (Key × String)} {property : Property}
      {groupName : Option String} {schema : Node} {form : String}
      {found : Option (List Property)} :
      resolver.resolve property.schema = some schema →
      classify schema (Keywords.ofNode schema) = .map → enclosing? active schema = none →
      Meets resolver depth (Walk.under active schema property.valueForm)
        (valueProperty resolver schema) (some property.valueForm) form found →
      Meets resolver (depth + 1) active property groupName form found

/-- The forms that the walk meets for a model: its own, and those of its properties and of
the variants of these.  There is a variant of a branch only if a value stands for it. -/
inductive Resource.Meets (resolver : Resolver) (depth : Nat) (resource : Resource) :
    String → Option (List Property) → Prop where
  | model :
      resource.Meets resolver depth (formName resource.modelName) (some resource.properties)
  | control {property : Property} {form : String} {found : Option (List Property)} :
      property ∈ resource.properties →
      Form.Meets resolver depth resource.opened property none form found →
      resource.Meets resolver depth form found
  | variant {property inner : Property} {discriminator : Discriminator} {branches : List Node}
      {branch schema : Node} {text form : String} {found : Option (List Property)} :
      property ∈ resource.properties → Branches resolver property discriminator branches →
      branch ∈ branches → BranchValue resolver discriminator branch text →
      resolver.resolve branch = some schema →
      inner ∈ variantProperties resolver discriminator schema →
      Form.Meets resolver (depth - 1) resource.opened inner none form found →
      resource.Meets resolver depth form found

def Resource.Opens (resolver : Resolver) (depth : Nat) (resource : Resource) (form : String)
    (properties : List Property) : Prop :=
  resource.Meets resolver depth form (some properties)

def Resource.Cuts (resolver : Resolver) (depth : Nat) (resource : Resource) (form : String) :
    Prop :=
  resource.Meets resolver depth form none

variable {resolver : Resolver} {depth : Nat} {active : List (Key × String)} {property : Property}
  {groupName : Option String} {schema : Node} {form : String} {found : Option (List Property)}
  {wrap : String → List Control → Control} {resource : Resource}

theorem Meets.isSome (h : Meets resolver depth active property groupName form found)
    (hroomy : Roomy resolver depth active property) : found.isSome := by
  induction h with
  | opened => rfl
  | cut hholds hnone =>
      obtain ⟨_, hdepth, -⟩ := hroomy.inner hholds hnone
      cases hdepth
  | inside hholds hnone hinner _ ih =>
      obtain ⟨_, hdepth, hall⟩ := hroomy.inner hholds hnone
      obtain rfl := Nat.succ.inj hdepth
      exact ih (hall _ hinner)
  | value hresolve hshape hnone _ ih =>
      obtain ⟨_, hdepth, hvalue⟩ := hroomy.value hresolve hshape hnone
      obtain rfl := Nat.succ.inj hdepth
      exact ih hvalue

theorem Resource.Whole.not_cuts (h : resource.Whole resolver depth) (form : String) :
    ¬resource.Cuts resolver depth form := by
  intro hcuts
  cases hcuts with
  | control hproperty hmeets => simpa using hmeets.isSome (h.roomy hproperty)
  | variant hproperty hbranches hbranch _ hresolve hinner hmeets =>
      have hroomy := h.roomy_variant hproperty hbranches hbranch hresolve
        (mem_mergedProperties_of_variant hinner)
      simpa using hmeets.isSome hroomy

/-! ## Listing the forms -/

/-- The schema of the form that the control of a property holds, and the name of the form. -/
def held? (resolver : Resolver) (property : Property) (groupName : Option String) :
    Option (Node × String) :=
  (resolver.resolve property.schema).bind fun schema =>
    match classify schema (Keywords.ofNode schema) with
    | .group => some (schema, groupName.getD (formName property.name))
    | .array => (((schema.member? "items").bind resolver.resolve).filter hasProperties).map
        (·, formName (Naming.singular property.name))
    | .map | .leaf => none

theorem held?_eq_some_iff :
    held? resolver property groupName = some (schema, form) ↔
      ∃ wrap, Holds resolver property groupName schema form wrap := by
  constructor
  · intro h
    obtain ⟨own, hresolve, hheld⟩ := Option.bind_eq_some_iff.mp h
    split at hheld
    · rename_i hshape
      obtain ⟨rfl, rfl⟩ := Prod.mk.inj (Option.some.inj hheld)
      exact ⟨_, .group hresolve hshape⟩
    · rename_i hshape
      obtain ⟨items, hitems, heq⟩ := Option.map_eq_some_iff.mp hheld
      obtain ⟨rfl, rfl⟩ := Prod.mk.inj heq
      exact ⟨_, .items hresolve hshape hitems⟩
    · cases hheld
    · cases hheld
  · rintro ⟨wrap, hholds⟩
    cases hholds with
    | group hresolve hshape => simp [held?, hresolve, hshape]
    | items hresolve hshape hitems => simp [held?, hresolve, hshape, hitems]

def opensForm? (resolver : Resolver) (active : List (Key × String)) (property : Property)
    (groupName : Option String) : Option (Node × String) :=
  (held? resolver property groupName).filter fun held => (enclosing? active held.1).isNone

def opensMap? (resolver : Resolver) (active : List (Key × String)) (property : Property) :
    Option Node :=
  (resolver.resolve property.schema).filter fun schema =>
    classify schema (Keywords.ofNode schema) = .map && (enclosing? active schema).isNone

theorem opensForm?_eq_some_iff :
    opensForm? resolver active property groupName = some (schema, form) ↔
      (∃ wrap, Holds resolver property groupName schema form wrap) ∧
        enclosing? active schema = none := by
  rw [opensForm?, Option.filter_eq_some_iff, held?_eq_some_iff, Option.isNone_iff_eq_none]

theorem opensMap?_eq_some_iff :
    opensMap? resolver active property = some schema ↔
      resolver.resolve property.schema = some schema ∧
        classify schema (Keywords.ofNode schema) = .map ∧ enclosing? active schema = none := by
  rw [opensMap?, Option.filter_eq_some_iff, Bool.and_eq_true, decide_eq_true_eq,
    Option.isNone_iff_eq_none]

def met (resolver : Resolver) : Nat → List (Key × String) → Property → Option String →
    List (String × Option (List Property))
  | 0, active, property, groupName =>
      (opensForm? resolver active property groupName).elim [] fun (_, form) => [(form, none)]
  | depth + 1, active, property, groupName =>
      (opensForm? resolver active property groupName).elim [] (fun (schema, form) =>
        let properties := mergedProperties resolver schema
        (form, some properties) :: properties.flatMap fun inner =>
          met resolver depth (Walk.under active schema form) inner none) ++
        (opensMap? resolver active property).elim [] fun schema =>
          met resolver depth (Walk.under active schema property.valueForm)
            (valueProperty resolver schema) (some property.valueForm)

theorem meets_iff_mem_met :
    Meets resolver depth active property groupName form found ↔
      (form, found) ∈ met resolver depth active property groupName := by
  induction depth generalizing active property groupName with
  | zero =>
      rw [met, mem_elim_iff]
      constructor
      · intro h
        cases h with
        | cut hholds hnone =>
            exact ⟨_, opensForm?_eq_some_iff.mpr ⟨⟨_, hholds⟩, hnone⟩, List.mem_singleton_self _⟩
      · rintro ⟨⟨schema, own⟩, hopens, hmem⟩
        obtain ⟨⟨wrap, hholds⟩, hnone⟩ := opensForm?_eq_some_iff.mp hopens
        obtain ⟨rfl, rfl⟩ := Prod.mk.inj (List.mem_singleton.mp hmem)
        exact .cut hholds hnone
  | succ depth ih =>
      rw [met, List.mem_append, mem_elim_iff, mem_elim_iff]
      constructor
      · intro h
        cases h with
        | opened hholds hnone =>
            exact .inl ⟨_, opensForm?_eq_some_iff.mpr ⟨⟨_, hholds⟩, hnone⟩, List.mem_cons_self⟩
        | inside hholds hnone hinner hmeets =>
            refine .inl ⟨_, opensForm?_eq_some_iff.mpr ⟨⟨_, hholds⟩, hnone⟩, ?_⟩
            exact List.mem_cons_of_mem _ (List.mem_flatMap.mpr ⟨_, hinner, ih.mp hmeets⟩)
        | value hresolve hshape hnone hmeets =>
            exact .inr ⟨_, opensMap?_eq_some_iff.mpr ⟨hresolve, hshape, hnone⟩, ih.mp hmeets⟩
      · rintro (⟨⟨schema, outer⟩, hopens, hmem⟩ | ⟨schema, hopens, hmem⟩)
        · obtain ⟨⟨wrap, hholds⟩, hnone⟩ := opensForm?_eq_some_iff.mp hopens
          rcases List.mem_cons.mp hmem with hown | hbelow
          · obtain ⟨rfl, rfl⟩ := Prod.mk.inj hown
            exact .opened hholds hnone
          · obtain ⟨inner, hinner, hof⟩ := List.mem_flatMap.mp hbelow
            exact .inside hholds hnone hinner (ih.mpr hof)
        · obtain ⟨hresolve, hshape, hnone⟩ := opensMap?_eq_some_iff.mp hopens
          exact .value hresolve hshape hnone (ih.mpr hmem)

def branchProperties (resolver : Resolver) (property : Property) : List Property :=
  (oneOf? resolver property).elim [] fun (discriminator, oneOf) =>
    (oneOf.items.filter fun branch => (branchValue? resolver discriminator branch).isSome).flatMap
      fun branch => (resolver.resolve branch).elim [] (variantProperties resolver discriminator)

theorem mem_branchProperties {discriminator : Discriminator} {branches : List Node}
    {branch : Node} {text : String} {inner : Property}
    (hbranches : Branches resolver property discriminator branches) (hbranch : branch ∈ branches)
    (hvalue : BranchValue resolver discriminator branch text)
    (hresolve : resolver.resolve branch = some schema)
    (hinner : inner ∈ variantProperties resolver discriminator schema) :
    inner ∈ branchProperties resolver property := by
  obtain ⟨own, oneOf, hown, hdiscriminator, hmember, rfl⟩ := hbranches.exists_oneOf
  have honeOf := oneOf?_eq_some_iff.mpr ⟨own, hown, hdiscriminator, hmember⟩
  have hsome : (branchValue? resolver discriminator branch).isSome := by
    rw [branchValue?_eq_some_iff.mpr hvalue, Option.isSome_some]
  rw [branchProperties, mem_elim_iff]
  exact ⟨_, honeOf, List.mem_flatMap.mpr
    ⟨branch, List.mem_filter.mpr ⟨hbranch, hsome⟩, mem_elim_iff.mpr ⟨schema, hresolve, hinner⟩⟩⟩

namespace Resource

def met (resolver : Resolver) (depth : Nat) (resource : Resource) :
    List (String × Option (List Property)) :=
  (formName resource.modelName, some resource.properties) ::
    resource.properties.flatMap fun property =>
      Form.met resolver depth resource.opened property none ++
        (branchProperties resolver property).flatMap fun inner =>
          Form.met resolver (depth - 1) resource.opened inner none

theorem Meets.mem_met (h : resource.Meets resolver depth form found) :
    (form, found) ∈ resource.met resolver depth := by
  cases h with
  | model => exact List.mem_cons_self
  | control hproperty hmeets =>
      refine List.mem_cons_of_mem _ (List.mem_flatMap.mpr ⟨_, hproperty, ?_⟩)
      exact List.mem_append_left _ (meets_iff_mem_met.mp hmeets)
  | variant hproperty hbranches hbranch hvalue hresolve hinner hmeets =>
      have hmem := mem_branchProperties hbranches hbranch hvalue hresolve hinner
      refine List.mem_cons_of_mem _ (List.mem_flatMap.mpr ⟨_, hproperty, ?_⟩)
      exact List.mem_append_right _
        (List.mem_flatMap.mpr ⟨_, hmem, meets_iff_mem_met.mp hmeets⟩)

end Resource

/-! ## What forms show -/

theorem shown_cons (property : Property) (rest : List Property) :
    shown resolver (property :: rest) = shown resolver [property] ++ shown resolver rest := by
  rw [shown, shown, shown, ← List.map_append, ← List.filter_append, List.singleton_append]

theorem Builds.propertyNames {result : Option Built}
    (h : Builds resolver depth active property groupName result) :
    propertyNames (result.map Prod.fst).toList = shown resolver [property] := by
  have hsome := h.isSome_iff
  cases result with
  | none =>
      have hnone : resolver.resolve property.schema = none := by simpa using hsome
      rw [shown, List.filter_singleton, hnone]
      rfl
  | some built =>
      obtain ⟨_, _, -, hfield⟩ := h.exists_field
      have hname : built.1.field.propertyName = property.name := by rw [hfield]; rfl
      rw [shown, List.filter_singleton, hsome.mp rfl]
      exact congrArg (fun name => [name]) hname

theorem propertyNames_filterMap {outcomes : Property → Option Built} {properties : List Property}
    (h : ∀ property ∈ properties,
      Builds resolver depth active property none (outcomes property)) :
    propertyNames ((properties.filterMap outcomes).map Prod.fst) = shown resolver properties := by
  induction properties with
  | nil => rfl
  | cons property rest ih =>
      have hproperty := (h property List.mem_cons_self).propertyNames
      have hrest := ih fun other hother => h other (List.mem_cons_of_mem _ hother)
      rw [shown_cons, ← hproperty, ← hrest, List.filterMap_cons]
      cases outcomes property <;> rfl

theorem propertyNames_tops {properties : List Property} {tops : List TopProperty}
    (h : List.Forall₂ (BuildsTop resolver depth active) properties tops) :
    propertyNames (tops.filterMap TopProperty.control) = shown resolver properties := by
  induction h with
  | nil => rfl
  | cons hfirst _ ih =>
      cases hfirst with
      | @intro _ built _ hbuilds =>
          rw [shown_cons, ← hbuilds.propertyNames, ← ih, List.filterMap_cons]
          cases built <;> rfl

/-! ## What interfaces tell -/

/-- Each interface tells what a form shows that was met under its name, and nothing if the
form was cut; and each form with controls is one that was opened under its name. -/
structure Tells (resolver : Resolver) (meets : String → Option (List Property) → Prop)
    (forms : List (String × List Control)) (interfaces : List Interface) : Prop where
  interfaces : ∀ interface ∈ interfaces, ∃ found, meets interface.name found ∧
    interface.properties = found.elim [] (shown resolver)
  forms : ∀ form ∈ forms, form.2 ≠ [] → ∃ properties, meets form.1 (some properties) ∧
    propertyNames form.2 = shown resolver properties

namespace Tells

variable {meets meets' : String → Option (List Property) → Prop}
  {forms forms' : List (String × List Control)} {interfaces interfaces' : List Interface}

theorem nil : Tells resolver meets [] [] := ⟨nofun, nofun⟩

theorem mono (h : Tells resolver meets forms interfaces)
    (hmeets : ∀ form found, meets form found → meets' form found) :
    Tells resolver meets' forms interfaces where
  interfaces interface hinterface := by
    obtain ⟨found, hfound, htells⟩ := h.interfaces interface hinterface
    exact ⟨found, hmeets _ _ hfound, htells⟩
  forms form hform hne := by
    obtain ⟨properties, hopens, hshows⟩ := h.forms form hform hne
    exact ⟨properties, hmeets _ _ hopens, hshows⟩

theorem single {controls : List Control} {properties : List Property} {isTopLevel : Bool}
    (hopens : meets form (some properties))
    (hshows : propertyNames controls = shown resolver properties) :
    Tells resolver meets [(form, controls)] [⟨form, propertyNames controls, isTopLevel⟩] where
  interfaces interface hinterface := by
    obtain rfl := List.mem_singleton.mp hinterface
    exact ⟨some properties, hopens, hshows⟩
  forms form hform _ := by
    obtain rfl := List.mem_singleton.mp hform
    exact ⟨properties, hopens, hshows⟩

theorem append (h : Tells resolver meets forms interfaces)
    (h' : Tells resolver meets forms' interfaces') :
    Tells resolver meets (forms ++ forms') (interfaces ++ interfaces') where
  interfaces interface hinterface := by
    rcases List.mem_append.mp hinterface with hfront | hback
    · exact h.interfaces interface hfront
    · exact h'.interfaces interface hback
  forms form hform := by
    rcases List.mem_append.mp hform with hfront | hback
    · exact h.forms form hfront
    · exact h'.forms form hback

theorem flatMap {α : Type} {list : List α} {forms : α → List (String × List Control)}
    {interfaces : α → List Interface}
    (h : ∀ item ∈ list, Tells resolver meets (forms item) (interfaces item)) :
    Tells resolver meets (list.flatMap forms) (list.flatMap interfaces) where
  interfaces interface hinterface := by
    obtain ⟨item, hitem, hof⟩ := List.mem_flatMap.mp hinterface
    exact (h item hitem).interfaces interface hof
  forms form hform := by
    obtain ⟨item, hitem, hof⟩ := List.mem_flatMap.mp hform
    exact (h item hitem).forms form hof

theorem formOf {built : List Built} {properties : List Property}
    (h : ∀ inner ∈ built, Tells resolver meets inner.1.forms inner.2)
    (hopens : meets form (some properties))
    (hshows : propertyNames (built.map Prod.fst) = shown resolver properties) :
    Tells resolver meets
      (formsOf (formOf form built).1 ++ [(form, (formOf form built).1)]) (formOf form built).2 := by
  rw [Form.formOf, formsOf_map]
  exact (flatMap h).append (single hopens hshows)

theorem gathered {built : List Built}
    (h : ∀ inner ∈ built, Tells resolver meets inner.1.forms inner.2) :
    Tells resolver meets (formsOf (Form.formOf form built).1)
      ((Form.formOf form built).2.filter (·.name ≠ form)) where
  interfaces interface hinterface := by
    obtain ⟨hmem, hname⟩ := List.mem_filter.mp hinterface
    rcases List.mem_append.mp hmem with hbelow | hown
    · exact (flatMap h).interfaces interface hbelow
    · simp [List.mem_singleton.mp hown] at hname
  forms := by
    rw [Form.formOf, formsOf_map]
    exact (flatMap h).forms

end Tells

theorem Builds.tells {result : Option Built}
    (h : Builds resolver depth active property groupName result) :
    ∀ built ∈ result, Tells resolver (Meets resolver depth active property groupName)
      built.1.forms built.2 := by
  induction h with
  | unresolved => exact nofun
  | plain | list =>
      rintro _ ⟨⟩
      exact .nil
  | enclosed hholds _ =>
      rintro _ ⟨⟩
      rw [hholds.forms_wrap]
      exact ⟨nofun, by simp [formsOf]⟩
  | cut hholds hnone =>
      rintro _ ⟨⟩
      rw [hholds.forms_wrap]
      refine ⟨fun interface hinterface => ?_, by simp [formsOf]⟩
      obtain rfl := List.mem_singleton.mp hinterface
      exact ⟨none, .cut hholds hnone, rfl⟩
  | expanded hholds hnone hinner ih =>
      rintro _ ⟨⟩
      rw [expandedOf, hholds.forms_wrap]
      refine .formOf (fun inner hmem => ?_) (.opened hholds hnone) (propertyNames_filterMap hinner)
      obtain ⟨source, hsource, houtcome⟩ := List.mem_filterMap.mp hmem
      exact (ih source hsource inner houtcome).mono
        fun _ _ hmeets => .inside hholds hnone hsource hmeets
  | @map _ _ _ _ _ value hresolve hshape hnone _ ih =>
      rintro _ ⟨⟩
      cases value with
      | none => exact .nil
      | some value =>
          exact (ih value rfl).mono fun _ _ hmeets => .value hresolve hshape hnone hmeets

/-! ## Models -/

def VariantSet.forms (set : VariantSet) : List (String × List Control) :=
  set.variants.flatMap fun variant => formsOf variant.controls

def Analysis.forms (analysis : Analysis) : List (String × List Control) :=
  formsOf analysis.controls ++ analysis.variantSets.flatMap VariantSet.forms

theorem Varies.tells {discriminator : Discriminator} {branches : List Node} {branch : Node}
    {variant : Variant} {interfaces : List Interface} (hproperty : property ∈ resource.properties)
    (hbranches : Branches resolver property discriminator branches) (hbranch : branch ∈ branches)
    (h : Varies resolver depth resource.opened discriminator branch variant interfaces) :
    Tells resolver (resource.Meets resolver depth) (formsOf variant.controls) interfaces := by
  cases h with
  | @intro schema _ nested outcomes hresolve hvalue houtcomes hform hcontrols =>
      subst hform
      rw [hcontrols]
      refine .gathered fun built hmem => ?_
      obtain ⟨inner, hinner, houtcome⟩ := List.mem_filterMap.mp hmem
      exact ((houtcomes inner hinner).tells built houtcome).mono fun _ _ hmeets =>
        .variant hproperty hbranches hbranch hvalue hresolve hinner hmeets

theorem VariesAll.tells {set : VariantSet} {interfaces : List Interface}
    (hproperty : property ∈ resource.properties)
    (h : VariesAll resolver depth resource.opened property set interfaces) :
    Tells resolver (resource.Meets resolver depth) set.forms interfaces := by
  cases h with
  | intro hbranches hmembers hvariants =>
      rw [VariantSet.forms, hvariants, List.flatMap_map]
      refine .flatMap fun entry hentry => ?_
      obtain ⟨branch, hbranch, hvaries⟩ := hmembers entry hentry
      exact hvaries.tells hproperty hbranches hbranch

theorem BuildsTop.tells {top : TopProperty} (hproperty : property ∈ resource.properties)
    (h : BuildsTop resolver depth resource.opened property top) :
    Tells resolver (resource.Meets resolver depth)
      (top.variants.elim [] VariantSet.forms ++ formsOf top.control.toList) top.interfaces := by
  cases h with
  | @intro variants built hvariants hbuilds =>
      refine .append ?_ ?_
      · cases variants with
        | none => exact .nil
        | some entry => exact (hvariants entry rfl).tells hproperty
      · cases built with
        | none => exact .nil
        | some built =>
            have htells := (hbuilds.tells built rfl).mono fun _ _ hmeets =>
              Resource.Meets.control hproperty hmeets
            simpa [formsOf] using htells

theorem analyze_tells (resolver : Resolver) (depth : Nat) (resource : Resource) :
    Tells resolver (resource.Meets resolver depth) (analyze resolver depth resource).forms
      (analyze resolver depth resource).interfaces := by
  obtain ⟨tops, htops, hcontrols, hsets, hinterfaces, -⟩ := exists_tops resolver depth resource
  have htells : Tells resolver (resource.Meets resolver depth)
      (tops.flatMap fun top =>
        top.variants.elim [] VariantSet.forms ++ formsOf top.control.toList)
      (tops.flatMap TopProperty.interfaces) := by
    refine .flatMap fun top htop => ?_
    obtain ⟨property, hproperty, hbuilds⟩ := Walk.exists_mem_of_forall₂ htops htop
    exact hbuilds.tells hproperty
  have hshows : propertyNames (analyze resolver depth resource).controls =
      shown resolver resource.properties := by rw [hcontrols, propertyNames_tops htops]
  refine ⟨?_, fun form hform => htells.forms form (List.mem_flatMap.mpr ?_)⟩
  · rw [hinterfaces]
    exact (htells.append (.single .model hshows)).interfaces
  · rcases List.mem_append.mp hform with hown | hvariant
    · rw [hcontrols, formsOf_filterMap, List.mem_flatMap] at hown
      obtain ⟨top, htop, hof⟩ := hown
      exact ⟨top, htop, List.mem_append_right _ hof⟩
    · rw [hsets, List.mem_flatMap] at hvariant
      obtain ⟨set, hset, hof⟩ := hvariant
      obtain ⟨top, htop, hsome⟩ := List.mem_filterMap.mp hset
      exact ⟨top, htop, List.mem_append_left _ (by rwa [hsome])⟩

/--
Let all forms that are opened for a model under a name show the same properties.  Then the
interfaces of that name list the same properties, and the one that is found under the name
lists those of each of its nested forms that has controls, in variants too.  Only if a form of
this name is cut can an interface of the name be empty instead; if the model is a named schema
and the walk may go as deep as there are objects in the documents, none is.
-/
theorem interfaces_agree (resolver : Resolver) (depth : Nat) (resource : Resource) (name : String)
    (hagree : ∀ properties properties', resource.Opens resolver depth name properties →
      resource.Opens resolver depth name properties' →
      shown resolver properties = shown resolver properties') :
    let analysis := analyze resolver depth resource
    (∀ first ∈ analysis.interfaces, ∀ second ∈ analysis.interfaces,
        first.name = name → second.name = name → first.properties = second.properties ∨
          resource.Cuts resolver depth name ∧
            (first.properties = [] ∨ second.properties = [])) ∧
      (∀ controls, (name, controls) ∈ analysis.forms → controls ≠ [] →
        ∀ interface ∈ analysis.interface? name,
          interface.properties = propertyNames controls ∨
            resource.Cuts resolver depth name ∧ interface.properties = []) ∧
      (resource.Whole resolver depth → ¬resource.Cuts resolver depth name) := by
  intro analysis
  have htells : Tells resolver (resource.Meets resolver depth) analysis.forms
      analysis.interfaces := analyze_tells resolver depth resource
  refine ⟨?_, ?_, fun hwhole => hwhole.not_cuts name⟩
  · rintro first hfirst second hsecond rfl hname
    obtain ⟨found, hmeets, hlists⟩ := htells.interfaces first hfirst
    obtain ⟨found', hmeets', hlists'⟩ := htells.interfaces second hsecond
    rw [hname] at hmeets'
    cases found with
    | none => exact .inr ⟨hmeets, .inl hlists⟩
    | some properties =>
        cases found' with
        | none => exact .inr ⟨hmeets', .inr hlists'⟩
        | some properties' =>
            have hsame := hagree properties properties' hmeets hmeets'
            exact .inl (hlists.trans (hsame.trans hlists'.symm))
  · intro controls hcontrols hne interface hinterface
    have hname : interface.name = name := by simpa using List.find?_some hinterface
    obtain ⟨found, hmeets, hlists⟩ :=
      htells.interfaces interface (List.mem_of_find?_eq_some hinterface)
    obtain ⟨properties', hopens', hshows⟩ := htells.forms _ hcontrols hne
    rw [hname] at hmeets
    cases found with
    | none => exact .inr ⟨hmeets, hlists⟩
    | some properties =>
        have hsame := hagree properties properties' hmeets hopens'
        exact .inl (hlists.trans (hsame.trans hshows.symm))

/-- A shelf has a book, books, and an owner with a book; no value stands for an owner whose book
has other properties. -/
def shelves : List (String × Json) := [("shelves.json", .object [("definitions", .object
  [("Shelf", .object [("properties", .object
    [("owner", .object
      [("oneOf", .array
        [.object [("properties", .object [("kind", .object [("const", .string "reader")]),
          ("book", .object [("properties", .object [("title", .object [])])])])],
        .object [("properties", .object
          [("book", .object [("properties", .object [("isbn", .object [])])])])]]),
      ("discriminator", .object [("propertyName", .string "kind")])]),
    ("book", .object [("properties", .object [("title", .object [])])]),
    ("books", .object [("items", .object [("properties", .object [("title", .object [])])])])])])])])]

theorem interfaces_agree_shelves :
    let resolver := Resolver.new (.ofDocuments shelves) "shelves.json"
    ∃ resource, Resource.ofComponent resolver .swagger2 "Shelf" = .ok resource ∧
      let analysis := analyze resolver 24 resource
      (analysis.interfaces.filter (·.name = "BookForm")).length = 3 ∧
      (∀ first ∈ analysis.interfaces, ∀ second ∈ analysis.interfaces,
        first.name = "BookForm" → second.name = "BookForm" →
          first.properties = second.properties) ∧
      ∃ interface ∈ analysis.interface? "BookForm",
        ∀ controls, ("BookForm", controls) ∈ analysis.forms → controls ≠ [] →
          interface.properties = propertyNames controls := by
  intro resolver
  have hrun : ∃ resource ∈ (Resource.ofComponent resolver .swagger2 "Shelf").toOption,
      (∀ entry ∈ resource.met resolver 24,
        entry.1 = "BookForm" → entry.2.map (shown resolver) = some ["title"]) ∧
      ((analyze resolver 24 resource).interface? "BookForm").isSome ∧
      ((analyze resolver 24 resource).interfaces.filter (·.name = "BookForm")).length = 3 := by
    decide +kernel
  obtain ⟨resource, hresource, htitle, hsome, hthree⟩ := exists_ofComponent hrun
  have hshown : ∀ properties, resource.Opens resolver 24 "BookForm" properties →
      shown resolver properties = ["title"] := fun properties hopens =>
    Option.some.inj (htitle _ hopens.mem_met rfl)
  have hobjects : resolver.store.objects.length = 24 := by decide +kernel
  have hwhole : resource.Whole resolver 24 :=
    ⟨⟨shelves, .swagger2, "Shelf", rfl, hresource⟩, hobjects.le⟩
  obtain ⟨hsame, hforms, hcuts⟩ := interfaces_agree resolver 24 resource "BookForm"
    fun properties properties' hopens hopens' =>
      (hshown properties hopens).trans (hshown properties' hopens').symm
  have hdeep := hcuts hwhole
  obtain ⟨interface, hinterface⟩ := Option.isSome_iff_exists.mp hsome
  refine ⟨resource, hresource, hthree, fun first hfirst second hsecond hname hname' => ?_,
    interface, hinterface, fun controls hcontrols hne => ?_⟩
  · exact (hsame first hfirst second hsecond hname hname').resolve_right fun hcut => hdeep hcut.1
  · exact (hforms controls hcontrols hne interface hinterface).resolve_right fun hcut =>
      hdeep hcut.1

/-! ## Forms that disagree -/

/-- A parcel has two addresses with different properties and two phones with the same ones; one
of each is in the home. -/
def parcel : Json := .object [("properties", .object
  [("home", .object [("properties", .object
    [("address", .object [("properties", .object [("street", .object [])])]),
    ("phone", .object [("properties", .object [("number", .object [])])])])]),
  ("address", .object [("properties", .object [("zip", .object [])])]),
  ("phone", .object [("properties", .object [("number", .object [])])])])]

theorem analyze_parcel :
    let resolver := Resolver.new (.ofDocuments [("parcel.json", parcel)]) "parcel.json"
    ∃ node ∈ resolver.store.get? "parcel.json",
      (analyze resolver 32 (.ofSchema resolver "Parcel" node)).interfaces =
        [⟨"AddressForm", ["street"], false⟩, ⟨"PhoneForm", ["number"], false⟩,
          ⟨"HomeForm", ["address", "phone"], false⟩, ⟨"AddressForm", ["zip"], false⟩,
          ⟨"PhoneForm", ["number"], false⟩, ⟨"ParcelForm", ["home", "address", "phone"], true⟩] ∧
      (analyze resolver 1 (.ofSchema resolver "Parcel" node)).interfaces =
        [⟨"AddressForm", [], false⟩, ⟨"PhoneForm", [], false⟩,
          ⟨"HomeForm", ["address", "phone"], false⟩, ⟨"AddressForm", ["zip"], false⟩,
          ⟨"PhoneForm", ["number"], false⟩,
          ⟨"ParcelForm", ["home", "address", "phone"], true⟩] := by
  decide +kernel

/-- Two interfaces of one name list different properties, because there are two schemas, or
because there is one and the walk goes no deeper at one of its places. -/
theorem exists_interfaces_disagreement :
    let resolver := Resolver.new (.ofDocuments [("parcel.json", parcel)]) "parcel.json"
    ∃ node ∈ resolver.store.get? "parcel.json",
      (∃ first ∈ (analyze resolver 32 (.ofSchema resolver "Parcel" node)).interfaces,
        ∃ second ∈ (analyze resolver 32 (.ofSchema resolver "Parcel" node)).interfaces,
          first.name = second.name ∧ first.properties = ["street"] ∧
            second.properties = ["zip"]) ∧
      ∃ first ∈ (analyze resolver 1 (.ofSchema resolver "Parcel" node)).interfaces,
        ∃ second ∈ (analyze resolver 1 (.ofSchema resolver "Parcel" node)).interfaces,
          first.name = second.name ∧ first.properties = [] ∧ second.properties = ["number"] := by
  obtain ⟨node, hnode, hdeep, hshallow⟩ := analyze_parcel
  refine ⟨node, hnode, ⟨⟨"AddressForm", ["street"], false⟩, by simp [hdeep],
    ⟨"AddressForm", ["zip"], false⟩, by simp [hdeep], rfl, rfl, rfl⟩,
    ⟨"PhoneForm", [], false⟩, by simp [hshallow],
    ⟨"PhoneForm", ["number"], false⟩, by simp [hshallow], rfl, rfl, rfl⟩

end SpecForm.Form
