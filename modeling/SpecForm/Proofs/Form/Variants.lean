import SpecForm.Proofs.Form.Building
import SpecForm.Proofs.Form.Discriminators

/-!
# How variants are built

The controls of a variant are built as those of a form are, one level deeper but inside the
same schemas: a branch is not being expanded while its variant is built.  Of the interfaces
all are kept but those that have the name of the form in which the controls are gathered.
With variants and controls the rules cover a whole model.
-/

namespace SpecForm.Form

open Schema Control

/-! ## Rules -/

def variantProperties (resolver : Resolver) (discriminator : Discriminator) (branch : Node) :
    List Property :=
  (mergedProperties resolver branch).filter (·.name ≠ discriminator.propertyName)

theorem mem_mergedProperties_of_variant {resolver : Resolver} {discriminator : Discriminator}
    {branch : Node} {inner : Property} (h : inner ∈ variantProperties resolver discriminator branch) :
    inner ∈ mergedProperties resolver branch := by
  rw [variantProperties] at h
  exact List.mem_of_mem_filter h

/-- A variant of a branch that a value stands for, with the interfaces that are kept. -/
inductive Varies (resolver : Resolver) (depth : Nat) (active : List (Key × String))
    (discriminator : Discriminator) (branch : Node) : Variant → List Interface → Prop where
  | intro {schema : Node} {variant : Variant} {nested : List Control × List Interface}
      {outcomes : Property → Option Built} : resolver.resolve branch = some schema →
      BranchValue resolver discriminator branch variant.value →
      (∀ inner ∈ variantProperties resolver discriminator schema,
        Builds resolver (depth - 1) active inner none (outcomes inner)) →
      nested = formOf variant.gathering
        ((variantProperties resolver discriminator schema).filterMap outcomes) →
      variant.controls = nested.1 →
      Varies resolver depth active discriminator branch variant
        (nested.2.filter (·.name ≠ variant.gathering))

structure Branches (resolver : Resolver) (property : Property) (discriminator : Discriminator)
    (branches : List Node) : Prop where
  exists_oneOf : ∃ schema oneOf, resolver.resolve property.schema = some schema ∧
    (Keywords.ofNode schema).discriminator = some discriminator ∧
    schema.member? "oneOf" = some oneOf ∧ branches = oneOf.items

def VariantSet.controls (set : VariantSet) : List Control := set.variants.flatMap Variant.controls

inductive VariesAll (resolver : Resolver) (depth : Nat) (active : List (Key × String))
    (property : Property) : VariantSet → List Interface → Prop where
  | intro {discriminator : Discriminator} {branches : List Node} {set : VariantSet}
      {members : List (Variant × Option String × List Interface)} :
      Branches resolver property discriminator branches →
      (∀ entry ∈ members, ∃ branch ∈ branches,
        Varies resolver depth active discriminator branch entry.1 entry.2.2) →
      set.variants = members.map Prod.fst →
      VariesAll resolver depth active property set (members.flatMap fun entry => entry.2.2)

inductive BuildsTop (resolver : Resolver) (depth : Nat) (active : List (Key × String))
    (property : Property) : TopProperty → Prop where
  | intro {variants : Option (VariantSet × List Interface)} {built : Option Built} :
      (∀ entry ∈ variants, VariesAll resolver depth active property entry.1 entry.2) →
      Builds resolver depth active property none built →
      BuildsTop resolver depth active property
        ⟨variants.map Prod.fst, built.map Prod.fst,
          variants.elim [] Prod.snd ++ built.elim [] Prod.snd⟩

/-! ## Following the rules -/

def VariantSet.features (set : VariantSet) : Features :=
  (Control.features set.controls).join { Features.none with isPolymorphic := true }

def TopProperty.features (top : TopProperty) : Features :=
  (top.variants.elim .none VariantSet.features).join (Control.features top.control.toList)

theorem Control.features_flatMap {α : Type} (controls : α → List Control) (list : List α) :
    Control.features (list.flatMap controls) =
      Walk.joined (list.map fun item => Control.features (controls item)) := by
  induction list with
  | nil => rfl
  | cons item rest ih =>
      rw [List.flatMap_cons, features_append, ih]
      rfl

variable {resolver : Resolver} {depth : Nat} {active : List (Key × String)} {property : Property}

theorem follows_buildBranch (discriminator : Discriminator) (branch : Node) (index : Nat) :
    Walk.Gives active (buildBranch resolver depth discriminator branch index) fun found added =>
      (∀ entry ∈ found.variant,
          Varies resolver depth active discriminator branch entry.1 entry.2.2) ∧
        added = Control.features (found.variant.elim [] fun entry => entry.1.controls) := by
  unfold buildBranch
  split
  · exact .pure ⟨by simp, rfl⟩
  · rename_i schema hresolve
    dsimp only
    split
    · exact .pure ⟨by simp, rfl⟩
    · rename_i tag hfind
      split
      · exact .pure ⟨by simp, rfl⟩
      · rename_i value hvalue
        have hstands : BranchValue resolver discriminator branch value := by
          rw [← branchValue?_eq_some_iff, branchValue?, tag?, hresolve, Option.bind_some, hfind,
            Option.map_some]
          exact hvalue
        refine (follows_buildForm (follows_buildControl resolver (depth - 1)) _
          (variantProperties resolver discriminator schema)).bind ?_
        rintro ⟨controls, interfaces⟩ added ⟨outcomes, houtcomes, hform, rfl⟩
        refine .pure ⟨?_, Features.join_none _⟩
        rintro _ ⟨⟩
        exact .intro hresolve hstands houtcomes hform rfl

theorem flatMap_controls (found : List Branch) :
    (found.flatMap fun branch => branch.variant.elim [] fun entry => entry.1.controls) =
      ((found.filterMap Branch.variant).map Prod.fst).flatMap Variant.controls := by
  induction found with
  | nil => rfl
  | cons branch rest ih =>
      rw [List.flatMap_cons, List.filterMap_cons, ih]
      cases branch.variant <;> rfl

theorem follows_buildVariants (property : Property) :
    Walk.Gives active (buildVariants resolver depth property) fun found added =>
      (∀ entry ∈ found, VariesAll resolver depth active property entry.1 entry.2) ∧
        added = (found.map Prod.fst).elim .none VariantSet.features := by
  unfold buildVariants
  dsimp only
  split
  · exact .pure ⟨by simp, rfl⟩
  · rename_i discriminator oneOf hfound
    obtain ⟨schema, hresolve, hdiscriminator, hmember⟩ := oneOf?_eq_some_iff.mp hfound
    have hbranches : Branches resolver property discriminator oneOf.items :=
      ⟨schema, oneOf, hresolve, hdiscriminator, hmember, rfl⟩
    refine (Walk.Gives.mapM_measured fun entry _ =>
      follows_buildBranch discriminator entry.1 entry.2).bind fun found _ hfound => ?_
    obtain ⟨hvaries, rfl⟩ := hfound
    refine .mark { Features.none with isPolymorphic := true }
      (fun _ => by simp [Features.join, Features.none]) (.pure ⟨?_, ?_⟩)
    · rintro _ ⟨⟩
      refine .intro hbranches (fun entry hentry => ?_) (by simp)
      obtain ⟨branch, hbranch, hvariant⟩ := List.mem_filterMap.mp hentry
      obtain ⟨source, hsource, hall⟩ := Walk.exists_mem_of_forall₂ hvaries hbranch
      exact ⟨source.1, List.fst_mem_of_mem_zipIdx hsource, hall entry hvariant⟩
    · rw [← features_flatMap, Option.map_some, Option.elim_some, Features.join_none,
        VariantSet.features, VariantSet.controls]
      rw [List.map_map]
      exact congrArg (fun controls => (Control.features controls).join _) (flatMap_controls found)

theorem follows_buildTopProperty (property : Property) :
    Walk.Gives active (buildTopProperty resolver depth property) fun top added =>
      BuildsTop resolver depth active property top ∧ added = top.features := by
  unfold buildTopProperty
  refine (follows_buildVariants property).bind ?_
  rintro variants _ ⟨hvariants, rfl⟩
  refine (follows_buildControl resolver depth property none).bind ?_
  rintro built _ ⟨hbuilds, rfl⟩
  refine .pure ⟨.intro hvariants hbuilds, ?_⟩
  rw [Features.join_none]
  cases built <;> rfl

theorem exists_tops (resolver : Resolver) (depth : Nat) (resource : Resource) :
    ∃ tops, List.Forall₂ (BuildsTop resolver depth resource.opened) resource.properties tops ∧
      let analysis := analyze resolver depth resource
      analysis.controls = tops.filterMap TopProperty.control ∧
        analysis.variantSets = tops.filterMap TopProperty.variants ∧
        analysis.interfaces = tops.flatMap TopProperty.interfaces ++
          [⟨analysis.form, propertyNames analysis.controls, true⟩] ∧
        analysis.features = Walk.joined (tops.map TopProperty.features) := by
  obtain ⟨tops, _, ⟨htops, rfl⟩, hanalyze⟩ := exists_analyze
    (Walk.Gives.mapM_measured fun property _ => follows_buildTopProperty property)
  exact ⟨tops, htops, by rw [hanalyze]; exact ⟨rfl, rfl, rfl, rfl⟩⟩

end SpecForm.Form
