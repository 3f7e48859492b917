import SpecForm.Proofs.Form.Independence

/-!
# What a set of variants tells

Each branch of a `oneOf` is read on its own, and one of which no variant is made may still add
values.  So a set of variants is told by what its branches come to, one after the other, whatever
mix of good and broken branches there is.
-/

namespace SpecForm.Form

open Schema Control

variable {resolver : Resolver} {depth : Nat} {active : List (Key × String)} {property : Property}
  {discriminator : Discriminator} {branch : Node} {branches : List Node} {text : String}

/-! ## Branches -/

structure Describes (resolver : Resolver) (discriminator : Discriminator) (branch : Node)
    (found : Branch) : Prop where
  values : found.values = branchTexts resolver discriminator branch
  value : found.variant.map (fun entry => entry.1.value) = branchValue? resolver discriminator branch
  controls : ∀ entry ∈ found.variant, discriminator.propertyName ∉ propertyNames entry.1.controls

theorem propertyNames_subset {outcomes : Property → Option Built} {properties : List Property}
    (h : ∀ property ∈ properties,
      Builds resolver depth active property none (outcomes property)) :
    propertyNames ((properties.filterMap outcomes).map Prod.fst) ⊆
      properties.map Property.name := by
  rw [propertyNames_filterMap h, shown]
  exact List.map_subset _ List.filter_sublist.subset

theorem describes_buildBranch (depth : Nat) (branch : Node) (index : Nat) :
    Walk.Gives active (buildBranch resolver depth discriminator branch index) fun found _ =>
      Describes resolver discriminator branch found := by
  unfold buildBranch
  split
  · rename_i hresolve
    exact .pure ⟨by simp [branchTexts, branchValue?, tag?, hresolve],
      by simp [branchValue?, tag?, hresolve], by simp⟩
  · rename_i schema hresolve
    dsimp only
    split
    · rename_i hfind
      exact .pure ⟨by simp [branchTexts, branchValue?, tag?, hresolve, hfind],
        by simp [branchValue?, tag?, hresolve, hfind], by simp⟩
    · rename_i tag hfind
      have htag : tag? resolver discriminator branch = some (tag.keywords resolver) := by
        rw [tag?, hresolve, Option.bind_some, hfind, Option.map_some]
      split
      · rename_i hvalue
        have hnone : branchValue? resolver discriminator branch = none := by
          rw [branchValue?, htag]
          exact hvalue
        exact .pure ⟨by simp [branchTexts, htag, hnone, Property.keywords], hnone.symm, by simp⟩
      · rename_i value hvalue
        have hsome : branchValue? resolver discriminator branch = some value := by
          rw [branchValue?, htag]
          exact hvalue
        refine (follows_buildForm (follows_buildControl resolver (depth - 1)) _
          (variantProperties resolver discriminator schema)).bind ?_
        rintro ⟨controls, interfaces⟩ added ⟨outcomes, houtcomes, hform, -⟩
        have hfree : discriminator.propertyName ∉ propertyNames controls := by
          intro hmem
          rw [formOf, Prod.mk.injEq] at hform
          rw [hform.1] at hmem
          have hproperty := propertyNames_subset houtcomes hmem
          simp only [variantProperties, List.mem_map, List.mem_filter, decide_eq_true_eq] at hproperty
          obtain ⟨property, hother, hname⟩ := hproperty
          exact hother.2 hname
        exact .pure ⟨by simp [branchTexts, htag, hsome, Property.keywords], hsome.symm,
          by rintro _ ⟨⟩; exact hfree⟩

/-! ## Sets -/

theorem mem_addText_iff {texts : List String} {added : String} :
    text ∈ addText texts added ↔ text ∈ texts ∨ text = added := by
  rw [addText]
  split
  · rename_i hmem
    have hmem : added ∈ texts := by simpa using hmem
    exact ⟨.inl, fun h => h.elim id fun heq => heq ▸ hmem⟩
  · simp

theorem nodup_addText {texts : List String} (h : texts.Nodup) (added : String) :
    (addText texts added).Nodup := by
  rw [addText]
  split
  · exact h
  · rename_i hmem
    refine h.append (List.nodup_singleton _) ?_
    simpa [List.disjoint_singleton] using hmem

theorem mem_foldl_addText_iff {texts added : List String} :
    text ∈ added.foldl addText texts ↔ text ∈ texts ∨ text ∈ added := by
  induction added generalizing texts with
  | nil => simp
  | cons first rest ih => rw [List.foldl_cons, ih, mem_addText_iff, List.mem_cons, or_assoc]

theorem nodup_foldl_addText {texts : List String} (h : texts.Nodup) (added : List String) :
    (added.foldl addText texts).Nodup := by
  induction added generalizing texts with
  | nil => exact h
  | cons first rest ih => exact ih (nodup_addText h first)

def setOf (discriminator : Discriminator) (property : String) (found : List Branch) : VariantSet :=
  let built := found.filterMap Branch.variant
  let variants := built.map fun (variant, reference, _) => (variant, reference)
  ⟨discriminator.propertyName, property, (found.flatMap Branch.values).foldl addText [],
    variants.map Prod.fst, discriminator.defaultMapping.bind (defaultVariant? variants discriminator)⟩

def branchOf (resolver : Resolver) (depth : Nat) (active : List (Key × String))
    (discriminator : Discriminator) (branch : Node) (index : Nat) : Branch :=
  (Walk.outcome active (buildBranch resolver depth discriminator branch index)).1

/-- The set of variants that the walk makes of a list of branches. -/
def variantSetOf (resolver : Resolver) (depth : Nat) (active : List (Key × String))
    (discriminator : Discriminator) (property : String) (branches : List Node) : VariantSet :=
  setOf discriminator property (Walk.outcome active
    (branches.zipIdx.mapM fun (branch, index) =>
      buildBranch resolver depth discriminator branch index)).1

theorem Walk.Gives.outcome {α : Type} {part : WalkM α} {post : α → Features → Prop}
    (h : Walk.Gives active part post) :
    post (Walk.outcome active part).1 (Walk.outcome active part).2 := by
  obtain ⟨result, added, ⟨hpost, houtcome⟩, -⟩ := h.and_outcome
  rwa [houtcome]

theorem describes_branchOf (branch : Node) (index : Nat) :
    Describes resolver discriminator branch
      (branchOf resolver depth active discriminator branch index) :=
  (describes_buildBranch depth branch index).outcome

theorem variantSetOf_eq (property : String) (branches : List Node) :
    variantSetOf resolver depth active discriminator property branches =
      setOf discriminator property (branches.zipIdx.map fun entry =>
        branchOf resolver depth active discriminator entry.1 entry.2) :=
  congrArg _ (Walk.Gives.mapM_outcome fun entry _ =>
    describes_buildBranch depth entry.1 entry.2).outcome.1

theorem gives_variants (property : Property) :
    Walk.Gives active (buildVariants resolver depth property) fun found _ =>
      found.map Prod.fst = (oneOf? resolver property).map fun (discriminator, oneOf) =>
        variantSetOf resolver depth active discriminator property.name oneOf.items := by
  unfold buildVariants
  dsimp only
  split
  · rename_i hnone
    have hfound : oneOf? resolver property = none := hnone
    exact .pure (by rw [hfound]; rfl)
  · rename_i discriminator oneOf hsome
    have hfound : oneOf? resolver property = some (discriminator, oneOf) := hsome
    refine (Walk.Gives.mapM_outcome fun entry _ =>
      describes_buildBranch depth entry.1 entry.2).and_outcome.bind ?_
    rintro found _ ⟨-, houtcome⟩
    refine .mark { Features.none with isPolymorphic := true }
      (fun _ => by simp [Features.join, Features.none]) (.pure ?_)
    rw [hfound, Option.map_some, Option.map_some, variantSetOf, houtcome]
    rfl

theorem variantSets_eq (resolver : Resolver) (depth : Nat) (resource : Resource) :
    (analyze resolver depth resource).variantSets =
      resource.properties.filterMap fun property =>
        (oneOf? resolver property).map fun (discriminator, oneOf) =>
          variantSetOf resolver depth resource.opened discriminator property.name oneOf.items := by
  rw [analyze_eq_analysisOf, analysisOf]
  dsimp only
  rw [List.filterMap_map]
  refine List.filterMap_congr fun property _ => ?_
  have htop : Walk.Gives resource.opened (buildTopProperty resolver depth property) fun top _ =>
      top.variants = (oneOf? resolver property).map fun (discriminator, oneOf) =>
        variantSetOf resolver depth resource.opened discriminator property.name oneOf.items := by
    unfold buildTopProperty
    refine (gives_variants property).bind fun variants _ hvariants => ?_
    exact (follows_buildControl resolver depth property none).bind fun _ _ _ => .pure hvariants
  exact htop.outcome

/-! ## Consistency -/

/-- A set of variants keeps to its branches: there is a variant for each branch that a value
stands for, in their order and with this value; the values are all that the branches add, each
once; the controls of a variant leave the discriminator out; and a default is the value of a
variant. -/
structure VariantSet.Consistent (resolver : Resolver) (discriminator : Discriminator)
    (branches : List Node) (set : VariantSet) : Prop where
  discriminator_eq : set.discriminator = discriminator.propertyName
  variants : List.Forall₂ (fun branch variant =>
      BranchValue resolver discriminator branch variant.value)
    (branches.filter fun branch => ∃ text, BranchValue resolver discriminator branch text)
    set.variants
  nodup_values : set.values.Nodup
  mem_values : ∀ text, text ∈ set.values ↔
    ∃ branch ∈ branches, Adds resolver discriminator branch text
  controls : ∀ variant ∈ set.variants, set.discriminator ∉ propertyNames variant.controls
  default : ∀ value ∈ set.defaultValue, value ∈ set.variants.map Variant.value

theorem exists_mem_of_defaultVariant? {variants : List (Variant × Option String)}
    {default value : String} (h : defaultVariant? variants discriminator default = some value) :
    value ∈ (variants.map Prod.fst).map Variant.value := by
  obtain ⟨entry, hfind, rfl⟩ := Option.map_eq_some_iff.mp h
  exact List.mem_map_of_mem (List.mem_map_of_mem (List.mem_of_find?_eq_some hfind))

theorem forall₂_variants_of_describes {found : List Branch}
    (h : List.Forall₂ (Describes resolver discriminator) branches found) :
    List.Forall₂ (fun branch (variant : Variant) =>
        BranchValue resolver discriminator branch variant.value)
      (branches.filter fun branch => ∃ text, BranchValue resolver discriminator branch text)
      ((found.filterMap Branch.variant).map Prod.fst) := by
  induction h with
  | nil => exact .nil
  | @cons branch first _ _ hfirst _ ih =>
      have hvalue := hfirst.value
      cases hvariant : first.variant with
      | none =>
          rw [hvariant, Option.map_none] at hvalue
          have hnone : ¬∃ text, BranchValue resolver discriminator branch text := by
            simp [← branchValue?_eq_some_iff, ← hvalue]
          rwa [List.filter_cons_of_neg (by simpa using hnone), List.filterMap_cons_none hvariant]
      | some entry =>
          rw [hvariant, Option.map_some] at hvalue
          have hown := branchValue?_eq_some_iff.mp hvalue.symm
          rw [List.filter_cons_of_pos (by simpa using ⟨_, hown⟩),
            List.filterMap_cons_some hvariant, List.map_cons]
          exact .cons hown ih

theorem flatMap_values_of_describes {found : List Branch}
    (h : List.Forall₂ (Describes resolver discriminator) branches found) :
    found.flatMap Branch.values = branches.flatMap (branchTexts resolver discriminator) := by
  induction h with
  | nil => rfl
  | cons hfirst _ ih => rw [List.flatMap_cons, List.flatMap_cons, hfirst.values, ih]

theorem consistent_setOf {found : List Branch}
    (h : List.Forall₂ (Describes resolver discriminator) branches found) (property : String) :
    (setOf discriminator property found).Consistent resolver discriminator branches where
  discriminator_eq := rfl
  variants := by
    have hvariants := forall₂_variants_of_describes h
    rw [setOf]
    simpa only [List.map_map, Function.comp_def] using hvariants
  nodup_values := nodup_foldl_addText List.nodup_nil _
  mem_values := by
    intro text
    rw [setOf, mem_foldl_addText_iff, flatMap_values_of_describes h, List.mem_flatMap]
    simp only [List.not_mem_nil, false_or, mem_branchTexts_iff]
  controls := by
    intro variant hvariant
    simp only [setOf, List.map_map, List.mem_map, List.mem_filterMap] at hvariant
    obtain ⟨entry, ⟨branch, hbranch, hentry⟩, rfl⟩ := hvariant
    obtain ⟨source, -, hdescribes⟩ := Walk.exists_mem_of_forall₂ h hbranch
    exact hdescribes.controls entry hentry
  default := by
    intro value hvalue
    obtain ⟨default, -, hfound⟩ := Option.bind_eq_some_iff.mp hvalue
    exact exists_mem_of_defaultVariant? hfound

theorem consistent_variantSetOf (resolver : Resolver) (depth : Nat) (active : List (Key × String))
    (discriminator : Discriminator) (property : String) (branches : List Node) :
    (variantSetOf resolver depth active discriminator property branches).Consistent resolver
      discriminator branches := by
  rw [variantSetOf_eq]
  refine consistent_setOf ?_ property
  rw [List.forall₂_map_right_iff]
  have hzip : ∀ n, List.Forall₂ (fun branch (entry : Node × Nat) => Describes resolver discriminator
      branch (branchOf resolver depth active discriminator entry.1 entry.2)) branches
      (branches.zipIdx n) := by
    induction branches with
    | nil => exact fun _ => .nil
    | cons branch rest ih => exact fun n => .cons (describes_branchOf branch n) (ih (n + 1))
  exact hzip 0

/-! ## Branches that lead nowhere -/

theorem branchOf_of_unresolved (h : resolver.resolve branch = none) (index : Nat) :
    branchOf resolver depth active discriminator branch index = ⟨[], none⟩ := by
  rw [branchOf, buildBranch, h]
  rfl

theorem branchOf_of_reference (h : branch.string? "$ref" = some text) (index other : Nat) :
    branchOf resolver depth active discriminator branch index =
      branchOf resolver depth active discriminator branch other := by
  rw [branchOf, branchOf, buildBranch, buildBranch]
  simp only [h, variantModelName]

theorem exists_reference_of_resolve {schema : Node} (h : branch.has "$ref")
    (hresolve : resolver.resolve branch = some schema) : ∃ text, branch.string? "$ref" = some text := by
  obtain ⟨target, htarget⟩ := Option.isSome_iff_exists.mp h
  cases target with
  | string text => exact ⟨text, by simp [Node.string?, Json.stringMember?, htarget, Json.asString?]⟩
  | _ => simp [Resolver.resolve, Resolver.resolveInScope, Node.role, htarget] at hresolve

theorem branchOf_of_has (h : branch.has "$ref") (index other : Nat) :
    branchOf resolver depth active discriminator branch index =
      branchOf resolver depth active discriminator branch other := by
  cases hresolve : resolver.resolve branch with
  | none => rw [branchOf_of_unresolved hresolve, branchOf_of_unresolved hresolve]
  | some schema =>
      obtain ⟨text, htext⟩ := exists_reference_of_resolve h hresolve
      exact branchOf_of_reference htext index other

theorem variantSetOf_of_references (h : ∀ branch ∈ branches, branch.has "$ref") (property : String) :
    variantSetOf resolver depth active discriminator property branches =
      setOf discriminator property (branches.map fun branch =>
        branchOf resolver depth active discriminator branch 0) := by
  rw [variantSetOf_eq]
  refine congrArg _ ?_
  have hzip : ∀ n, ((branches.zipIdx n).map fun entry =>
      branchOf resolver depth active discriminator entry.1 entry.2) =
        branches.map fun branch => branchOf resolver depth active discriminator branch 0 := by
    induction branches with
    | nil => exact fun _ => rfl
    | cons branch rest ih =>
        obtain ⟨hfirst, hrest⟩ := List.forall_mem_cons.mp h
        intro n
        rw [List.zipIdx_cons, List.map_cons, List.map_cons, branchOf_of_has hfirst n 0,
          ih hrest (n + 1)]
  exact hzip 0

theorem flatMap_filter_of_eq_nil {α β : Type} {read : α → List β} {kept : α → Bool}
    (h : ∀ item, ¬kept item → read item = []) (list : List α) :
    (list.filter kept).flatMap read = list.flatMap read := by
  induction list with
  | nil => rfl
  | cons item rest ih =>
      by_cases hkept : kept item
      · rw [List.filter_cons_of_pos hkept, List.flatMap_cons, List.flatMap_cons, ih]
      · rw [List.filter_cons_of_neg hkept, List.flatMap_cons, h item hkept, ih, List.nil_append]

theorem setOf_map_filter {outcome : Node → Branch} {kept : Node → Bool}
    (h : ∀ branch, ¬kept branch → outcome branch = ⟨[], none⟩) (property : String)
    (branches : List Node) :
    setOf discriminator property ((branches.filter kept).map outcome) =
      setOf discriminator property (branches.map outcome) := by
  have hvariants : ((branches.filter kept).map outcome).filterMap Branch.variant =
      (branches.map outcome).filterMap Branch.variant := by
    simp only [List.filterMap_eq_flatMap_toList, List.flatMap_map]
    exact flatMap_filter_of_eq_nil (fun branch hkept => by rw [h branch hkept]; rfl) branches
  have hvalues : ((branches.filter kept).map outcome).flatMap Branch.values =
      (branches.map outcome).flatMap Branch.values := by
    simp only [List.flatMap_map]
    exact flatMap_filter_of_eq_nil (fun branch hkept => by rw [h branch hkept]) branches
  rw [setOf, setOf, hvariants, hvalues]

theorem variantSetOf_filter (h : ∀ branch ∈ branches, branch.has "$ref") (property : String) :
    variantSetOf resolver depth active discriminator property
        (branches.filter fun branch => (resolver.resolve branch).isSome) =
      variantSetOf resolver depth active discriminator property branches := by
  rw [variantSetOf_of_references h, variantSetOf_of_references fun branch hbranch =>
    h branch (List.mem_of_mem_filter hbranch)]
  exact setOf_map_filter (fun branch hkept => branchOf_of_unresolved (by simpa using hkept) 0) property
    branches

/-! ## Analyses -/

theorem exists_branches_of_mem {set : VariantSet} {resource : Resource}
    (h : set ∈ (analyze resolver depth resource).variantSets) :
    ∃ property ∈ resource.properties, ∃ discriminator branches,
      Branches resolver property discriminator branches ∧
        set = variantSetOf resolver depth resource.opened discriminator property.name branches := by
  rw [variantSets_eq, List.mem_filterMap] at h
  obtain ⟨property, hproperty, hset⟩ := h
  obtain ⟨⟨discriminator, oneOf⟩, hfound, rfl⟩ := Option.map_eq_some_iff.mp hset
  obtain ⟨schema, hresolve, hdiscriminator, hmember⟩ := oneOf?_eq_some_iff.mp hfound
  exact ⟨property, hproperty, discriminator, oneOf.items,
    ⟨schema, oneOf, hresolve, hdiscriminator, hmember, rfl⟩, rfl⟩

theorem mem_variantSets_of_branches {resource : Resource} (hproperty : property ∈ resource.properties)
    (h : Branches resolver property discriminator branches) :
    variantSetOf resolver depth resource.opened discriminator property.name branches ∈
      (analyze resolver depth resource).variantSets := by
  obtain ⟨schema, oneOf, hresolve, hdiscriminator, hmember, rfl⟩ := h.exists_oneOf
  have hfound := oneOf?_eq_some_iff.mpr ⟨schema, hresolve, hdiscriminator, hmember⟩
  rw [variantSets_eq]
  exact List.mem_filterMap.mpr ⟨property, hproperty, by rw [hfound]; rfl⟩

/--
Whatever the documents, the depth and the model, its properties in the documents or not: there
are variants for every property that is a `oneOf` with a discriminator, and for no other.  In
every set of variants there is one for each branch that leads somewhere, has the discriminator
property among those that it has or inherits, and has a value that stands for it; they are in
the order of the branches, each with that value.  The values of the set are all different and
are just these and all texts that an enumeration of a discriminator property lists, also of a
branch without a variant.  No control of a variant is that of the discriminator property, and a
default is the value of some variant.  If every branch is a reference, the set is the one that
comes of the branches that lead somewhere.
-/
theorem variantSets_consistent (resolver : Resolver) (depth : Nat) (resource : Resource) :
    let variantsOf (discriminator : Discriminator) (property : Property) (branches : List Node) :=
      variantSetOf resolver depth resource.opened discriminator property.name branches
    let analysis := analyze resolver depth resource
    (∀ property ∈ resource.properties, ∀ discriminator branches,
      Branches resolver property discriminator branches →
        variantsOf discriminator property branches ∈ analysis.variantSets) ∧
      ∀ set ∈ analysis.variantSets, ∃ property ∈ resource.properties, ∃ discriminator branches,
        Branches resolver property discriminator branches ∧
          set = variantsOf discriminator property branches ∧
          set.Consistent resolver discriminator branches ∧
          ((∀ branch ∈ branches, branch.has "$ref") →
            set = variantsOf discriminator property
              (branches.filter fun branch => (resolver.resolve branch).isSome)) := by
  intro variantsOf analysis
  refine ⟨fun property hproperty discriminator branches h => mem_variantSets_of_branches hproperty h,
    fun set hset => ?_⟩
  obtain ⟨property, hproperty, discriminator, branches, hbranches, rfl⟩ :=
    exists_branches_of_mem hset
  exact ⟨property, hproperty, discriminator, branches, hbranches, rfl,
    consistent_variantSetOf resolver depth resource.opened discriminator property.name branches,
    fun hreferences => (variantSetOf_filter hreferences property.name).symm⟩

/-- Of the branches of `pet` one leads nowhere, one lacks the discriminator property, one is told
by the mapping, one has two values and one inherits its properties; of those of `guest` one leads
nowhere. -/
def household : Resource := ⟨"Household",
  [⟨"pet", .detached (.object
      [("oneOf", .array
        [.object [("$ref", .string "#/gone")], .object [("$ref", .string "#")],
        .object [("$ref", .string "#/Bird")],
        .object [("properties", .object [("weight", .object [])])],
        .object [("properties", .object
          [("kind", .object [("enum", .array [.string "fish", .int 7])])])],
        .object [("allOf", .array [.object [("$ref", .string "#")]]),
          ("properties", .object [("kind", .object [("enum", .array [.string "kitten"])])])]]),
      ("discriminator", .object [("propertyName", .string "kind"),
        ("mapping", .object [("feline", .string "#/Cat"), ("bird", .string "#/Bird")]),
        ("defaultMapping", .string "kitten")])]), true⟩,
    ⟨"guest", .detached (.object
      [("oneOf", .array [.object [("$ref", .string "#/gone")], .object [("$ref", .string "#")]]),
      ("discriminator", .object [("propertyName", .string "kind")])]), false⟩], none⟩

def cats : Resolver := .new (.ofDocuments [("cat.json", .object [("properties", .object
    [("kind", .object [("const", .string "cat")]), ("name", .object [])]),
  ("Bird", .object [("properties", .object [("kind", .object []), ("wings", .object [])])])])])
  "cat.json"

theorem variantSets_household : ((analyze cats 32 household).variantSets.map fun set =>
      (set.property, set.values, set.variants.map fun variant =>
        (variant.value, propertyNames variant.controls), set.defaultValue)) =
    [("pet", ["cat", "bird", "fish", "7", "kitten"],
        [("cat", ["name"]), ("bird", ["wings"]), ("kitten", ["name"])], some "kitten"),
      ("guest", ["cat"], [("cat", ["name"])], none)] := by
  decide +kernel

theorem references_guest : ∀ property ∈ household.properties, property.name = "guest" →
    ∀ found ∈ oneOf? cats property, ∀ branch ∈ found.2.items, branch.has "$ref" := by
  decide +kernel

theorem variantSets_consistent_household :
    ∃ pet ∈ (analyze cats 32 household).variantSets,
      ∃ guest ∈ (analyze cats 32 household).variantSets,
        pet.values = ["cat", "bird", "fish", "7", "kitten"] ∧
        (∃ discriminator branches, pet.Consistent cats discriminator branches) ∧
        ∃ property ∈ household.properties, ∃ discriminator branches,
          Branches cats property discriminator branches ∧
          (∀ branch ∈ branches, branch.has "$ref") ∧
          variantSetOf cats 32 household.opened discriminator property.name branches ∈
            (analyze cats 32 household).variantSets ∧
          guest = variantSetOf cats 32 household.opened discriminator property.name
            (branches.filter fun branch => (cats.resolve branch).isSome) := by
  obtain ⟨hall, hsets⟩ := variantSets_consistent cats 32 household
  have hhousehold := variantSets_household
  obtain ⟨pet, rest, hlist, hpet, hrest⟩ := List.map_eq_cons_iff.mp hhousehold
  obtain ⟨guest, others, rfl, hguest, -⟩ := List.map_eq_cons_iff.mp hrest
  have hpetMem : pet ∈ (analyze cats 32 household).variantSets := by simp [hlist]
  have hguestMem : guest ∈ (analyze cats 32 household).variantSets := by simp [hlist]
  obtain ⟨-, -, discriminator, branches, -, -, hconsistent, -⟩ := hsets pet hpetMem
  obtain ⟨property, hproperty, own, found, hbranches, hown, -, hfilter⟩ := hsets guest hguestMem
  have hname : property.name = "guest" := by
    rw [← (Prod.mk.inj hguest).1, hown]
    rfl
  have hreferences : ∀ branch ∈ found, branch.has "$ref" := by
    obtain ⟨schema, oneOf, hresolve, hdiscriminator, hmember, rfl⟩ := hbranches.exists_oneOf
    exact references_guest property hproperty hname _
      (oneOf?_eq_some_iff.mpr ⟨schema, hresolve, hdiscriminator, hmember⟩)
  exact ⟨pet, hpetMem, guest, hguestMem, (Prod.mk.inj (Prod.mk.inj hpet).2).1,
    ⟨discriminator, branches, hconsistent⟩, property, hproperty, own, found, hbranches, hreferences,
    hall property hproperty own found hbranches, hfilter hreferences⟩

end SpecForm.Form
