import SpecForm.Proofs.Form.VariantSets

/-!
# Which branch a mapping names

A discriminator may map values to branches and may have a default.  The default goes to the
first variant that it means in any of three ways, and a later variant that has exactly the
reference may lose to it.  A key of the mapping is a value of the set only if it stands for a
branch: the first key that names a branch without a value of its own does.
-/

namespace SpecForm.Form

open Schema Control

variable {resolver : Resolver} {depth : Nat} {property : Property} {discriminator : Discriminator}
  {branch : Node} {branches : List Node} {tag : Keywords} {default : String}

/-! ## Defaults -/

def defaultTarget (discriminator : Discriminator) (default : String) : String :=
  (discriminator.targets.lookup default).getD default

/-- A default means a variant by its value, by its reference or by its model. -/
inductive Means (discriminator : Discriminator) (default : String) :
    Variant × Option String → Prop where
  | value {variant : Variant} {reference : Option String} : variant.value = default →
      Means discriminator default (variant, reference)
  | reference {variant : Variant} {text : String} :
      targetNames (defaultTarget discriminator default) text →
      Means discriminator default (variant, some text)
  | model {variant : Variant} {reference : Option String} :
      variant.modelName =
        Naming.pascalCase (Reference.targetName (defaultTarget discriminator default)) →
      Means discriminator default (variant, reference)

theorem means_iff {variant : Variant} {reference : Option String} :
    Means discriminator default (variant, reference) ↔
      variant.value = default ∨
        reference.any (targetNames (defaultTarget discriminator default)) ∨
        variant.modelName =
          Naming.pascalCase (Reference.targetName (defaultTarget discriminator default)) := by
  constructor
  · rintro (hvalue | hnames | hmodel)
    · exact .inl hvalue
    · exact .inr (.inl hnames)
    · exact .inr (.inr hmodel)
  · rintro (hvalue | hnames | hmodel)
    · exact .value hvalue
    · cases reference with
      | none => exact absurd hnames (by simp)
      | some text => exact .reference hnames
    · exact .model hmodel

section

variable {variants front back : List (Variant × Option String)} {entry : Variant × Option String}

theorem defaultVariant?_append (front back : List (Variant × Option String)) :
    defaultVariant? (front ++ back) discriminator default =
      (defaultVariant? front discriminator default).or
        (defaultVariant? back discriminator default) := by
  simp only [defaultVariant?, List.find?_append, Option.map_or]

theorem defaultVariant?_cons_of_means (h : Means discriminator default entry) :
    defaultVariant? (entry :: back) discriminator default = some entry.1.value := by
  have hmeant := means_iff.mp h
  rw [defaultVariant?, List.find?_cons_of_pos, Option.map_some]
  simpa [defaultTarget, or_assoc] using hmeant

theorem defaultVariant?_cons_of_not_means (h : ¬Means discriminator default entry) :
    defaultVariant? (entry :: back) discriminator default =
      defaultVariant? back discriminator default := by
  rw [means_iff] at h
  rw [defaultVariant?, List.find?_cons_of_neg, defaultVariant?]
  simpa [defaultTarget, or_assoc] using h

theorem defaultVariant?_eq_some_iff {value : String} :
    defaultVariant? variants discriminator default = some value ↔
      ∃ front entry back, variants = front ++ entry :: back ∧
        (∀ earlier ∈ front, ¬Means discriminator default earlier) ∧
        Means discriminator default entry ∧ entry.1.value = value := by
  constructor
  · intro h
    induction variants with
    | nil => simp [defaultVariant?] at h
    | cons first rest ih =>
        by_cases hfirst : Means discriminator default first
        · rw [defaultVariant?_cons_of_means hfirst, Option.some.injEq] at h
          exact ⟨[], first, rest, rfl, nofun, hfirst, h⟩
        · rw [defaultVariant?_cons_of_not_means hfirst] at h
          obtain ⟨front, entry, back, rfl, hfront, hentry⟩ := ih h
          exact ⟨first :: front, entry, back, rfl,
            List.forall_mem_cons.mpr ⟨hfirst, hfront⟩, hentry⟩
  · rintro ⟨front, entry, back, rfl, hfront, hentry, rfl⟩
    induction front with
    | nil => exact defaultVariant?_cons_of_means hentry
    | cons first rest ih =>
        obtain ⟨hfirst, hrest⟩ := List.forall_mem_cons.mp hfront
        rw [List.cons_append, defaultVariant?_cons_of_not_means hfirst]
        exact ih hrest

end

/--
Let a default have a target in the mapping, or be its own target, and let some variant have
exactly this target for its reference.  Then the default has a value.  It is the value of this
variant if the default means no variant before it, and otherwise that of the first variant that
it means, by its value, its reference or its model: this one gets the default only if the other
has the same value.
-/
theorem defaultVariant?_of_exact (discriminator : Discriminator) (default : String)
    (front back : List (Variant × Option String)) (variant : Variant) :
    let found := defaultVariant?
      (front ++ (variant, some (defaultTarget discriminator default)) :: back) discriminator default
    found.isSome ∧
      ((∀ entry ∈ front, ¬Means discriminator default entry) → found = some variant.value) ∧
      ∀ before entry after, front = before ++ entry :: after →
        (∀ earlier ∈ before, ¬Means discriminator default earlier) →
        Means discriminator default entry →
        found = some entry.1.value ∧
          (found = some variant.value ↔ entry.1.value = variant.value) := by
  intro found
  have hexact : Means discriminator default
      (variant, some (defaultTarget discriminator default)) :=
    .reference (by simp [targetNames])
  refine ⟨?_, fun hfront => ?_, ?_⟩
  · have hfound : found =
        (defaultVariant? front discriminator default).or (some variant.value) :=
      (defaultVariant?_append front _).trans
        (congrArg _ (defaultVariant?_cons_of_means hexact))
    rw [hfound, Option.isSome_or, Option.isSome_some, Bool.or_true]
  · exact defaultVariant?_eq_some_iff.mpr ⟨front, _, back, rfl, hfront, hexact, rfl⟩
  · rintro before entry after rfl hbefore hentry
    have hfound : found = some entry.1.value :=
      defaultVariant?_eq_some_iff.mpr
        ⟨before, entry, _, List.append_assoc _ _ _, hbefore, hentry, rfl⟩
    exact ⟨hfound, by rw [hfound, Option.some.injEq]⟩

def den : Resolver := .new (.ofDocuments [("den.json", .object
  [("Cat", .object [("properties", .object [("kind", .object [])])]),
    ("Dog", .object [("properties", .object [("kind", .object [("const", .string "dog")])])]),
    ("wild", .object [("Dog", .object
      [("properties", .object [("kind", .object [("const", .string "wolf")])])])])])]) "den.json"

def wolf : Variant × Option String := (⟨"wolf", "Dog", "dogForm", []⟩, some "#/wild/Dog")

def dog : Variant × Option String := (⟨"dog", "Dog", "dogForm", []⟩, some "#/Dog")

theorem means_wolf : Means ⟨"kind", [], some "#/Dog"⟩ "#/Dog" wolf := .model (by decide +kernel)

theorem defaultVariant?_of_exact_dog :
    Means ⟨"kind", [], some "#/Dog"⟩ "#/Dog" wolf ∧
      defaultVariant? [dog, wolf] ⟨"kind", [], some "#/Dog"⟩ "#/Dog" = some "dog" ∧
      defaultVariant? [wolf, dog] ⟨"kind", [], some "#/Dog"⟩ "#/Dog" = some "wolf" :=
  ⟨means_wolf,
    (defaultVariant?_of_exact ⟨"kind", [], some "#/Dog"⟩ "#/Dog" [] [wolf] dog.1).2.1 nofun,
    ((defaultVariant?_of_exact ⟨"kind", [], some "#/Dog"⟩ "#/Dog" [wolf] [] dog.1).2.2 [] wolf []
      rfl nofun means_wolf).1⟩

def pack : Resource := ⟨"Pack",
  [⟨"leader", .detached (.object
    [("oneOf", .array
      [.object [("$ref", .string "#/wild/Dog")], .object [("$ref", .string "#/Dog")]]),
    ("discriminator", .object
      [("propertyName", .string "kind"), ("defaultMapping", .string "#/Dog")])]), true⟩], none⟩

/-- A default may go to a variant although a later one has exactly the reference that it has for
its target. -/
theorem exists_default_elsewhere :
    (∃ set ∈ (analyze den 32 pack).variantSets,
      set.variants.map Variant.value = ["wolf", "dog"] ∧ set.defaultValue = some "wolf") ∧
    ¬∀ (discriminator : Discriminator) (default : String)
      (front back : List (Variant × Option String)) (variant : Variant),
      (∀ entry ∈ front, entry.2 ≠ some (defaultTarget discriminator default)) →
        defaultVariant?
          (front ++ (variant, some (defaultTarget discriminator default)) :: back)
          discriminator default = some variant.value := by
  constructor
  · decide +kernel
  · intro h
    exact absurd (h ⟨"kind", [], some "#/Dog"⟩ "#/Dog" [wolf] [] dog.1 (by decide))
      (by decide +kernel)

/-! ## Mapped values -/

/-- The discriminator property of a branch does not tell the value of the branch. -/
def LeavesOpen (tag : Keywords) : Prop :=
  (enumTexts tag).length ≠ 1 ∧ tag.const.bind valueText? = none

def FirstNames (discriminator : Discriminator) (reference key : String) : Prop :=
  ∃ front target back, discriminator.targets = front ++ (key, target) :: back ∧
    (∀ entry ∈ front, ¬targetNames entry.2 reference) ∧ targetNames target reference

section

variable {reference text : String}

theorem Tagged.unique {other : Keywords} (h : Tagged resolver discriminator branch tag)
    (hother : Tagged resolver discriminator branch other) : tag = other :=
  Option.some.inj ((tag?_eq_some_iff.mpr h).symm.trans (tag?_eq_some_iff.mpr hother))

theorem branchValue_iff_of_tagged (h : Tagged resolver discriminator branch tag) :
    BranchValue resolver discriminator branch text ↔
      StandsFor tag discriminator (branch.string? "$ref") text := by
  constructor
  · rintro ⟨other, hother, hstands⟩
    rwa [h.unique hother]
  · exact fun hstands => ⟨tag, h, hstands⟩

theorem adds_iff_of_tagged (h : Tagged resolver discriminator branch tag) :
    Adds resolver discriminator branch text ↔
      text ∈ enumTexts tag ∨ StandsFor tag discriminator (branch.string? "$ref") text := by
  rw [Adds, branchValue_iff_of_tagged h]
  refine or_congr_left ?_
  constructor
  · rintro ⟨other, hother, htext⟩
    rwa [h.unique hother]
  · exact fun htext => ⟨tag, h, htext⟩

theorem exists_standsFor (tag : Keywords) (discriminator : Discriminator) (reference : String) :
    ∃ text, StandsFor tag discriminator (some reference) text := by
  by_cases hlength : (enumTexts tag).length = 1
  · obtain ⟨only, honly⟩ := List.length_eq_one_iff.mp hlength
    exact ⟨only, .enumerated honly⟩
  · cases hconst : tag.const.bind valueText? with
    | some text => exact ⟨text, .constant hlength hconst⟩
    | none => exact ⟨_, standsFor_mappedName hlength hconst rfl⟩

theorem standsFor_iff_of_names {key target : String}
    (hentry : (key, target) ∈ discriminator.targets) (hnames : targetNames target reference) :
    StandsFor tag discriminator (some reference) text ↔
      enumTexts tag = [text] ∨
        ((enumTexts tag).length ≠ 1 ∧ tag.const.bind valueText? = some text) ∨
        (LeavesOpen tag ∧ FirstNames discriminator reference text) := by
  constructor
  · rintro (honly | ⟨hlength, hconst⟩ | ⟨hlength, hconst, ⟨⟩, hsplit, hfront, hfirst⟩ |
      ⟨-, -, ⟨⟩, hnone⟩)
    · exact .inl honly
    · exact .inr (.inl ⟨hlength, hconst⟩)
    · exact .inr (.inr ⟨⟨hlength, hconst⟩, _, _, _, hsplit, hfront, hfirst⟩)
    · exact absurd hnames (hnone _ hentry)
  · rintro (honly | ⟨hlength, hconst⟩ | ⟨⟨hlength, hconst⟩, front, own, back, hsplit, hfront, hown⟩)
    · exact .enumerated honly
    · exact .constant hlength hconst
    · exact .mapped hlength hconst rfl hsplit hfront hown

end

/--
Let a key of the mapping name the reference of a branch that leads to a schema with the
discriminator property.  Such a branch always has a variant.  The key is among the values of the
set just if the discriminator property of the branch lists it or has it for its constant, or
leaves its value open and the key is the first that names the reference, or if some other branch
adds it.
-/
theorem mapped_mem_values (resolver : Resolver) (depth : Nat) (resource : Resource) :
    ∀ set ∈ (analyze resolver depth resource).variantSets,
      ∃ property ∈ resource.properties, ∃ discriminator branches,
        Branches resolver property discriminator branches ∧ set.property = property.name ∧
        ∀ branch ∈ branches, ∀ tag, Tagged resolver discriminator branch tag →
          ∀ reference, branch.string? "$ref" = some reference →
            (∃ variant ∈ set.variants, BranchValue resolver discriminator branch variant.value) ∧
            ∀ key target, (key, target) ∈ discriminator.targets → targetNames target reference →
              (key ∈ set.values ↔
                (key ∈ enumTexts tag ∨
                  ((enumTexts tag).length ≠ 1 ∧ tag.const.bind valueText? = some key) ∨
                  (LeavesOpen tag ∧ FirstNames discriminator reference key)) ∨
                ∃ other ∈ branches, other ≠ branch ∧ Adds resolver discriminator other key) := by
  intro set hset
  obtain ⟨property, hproperty, discriminator, branches, hbranches, rfl⟩ :=
    exists_branches_of_mem hset
  have hconsistent := consistent_variantSetOf resolver depth resource.opened discriminator
    property.name branches
  refine ⟨property, hproperty, discriminator, branches, hbranches, rfl, ?_⟩
  intro branch hbranch tag htag reference hreference
  refine ⟨?_, fun key target hentry hnames => ?_⟩
  · obtain ⟨text, htext⟩ := exists_standsFor tag discriminator reference
    have hvalue : BranchValue resolver discriminator branch text := by
      rw [branchValue_iff_of_tagged htag, hreference]
      exact htext
    exact Walk.exists_mem_of_forall₂ hconsistent.variants.flip
      (List.mem_filter.mpr ⟨hbranch, by simpa using ⟨text, hvalue⟩⟩)
  · have hown : Adds resolver discriminator branch key ↔
        key ∈ enumTexts tag ∨ ((enumTexts tag).length ≠ 1 ∧ tag.const.bind valueText? = some key) ∨
          (LeavesOpen tag ∧ FirstNames discriminator reference key) := by
      rw [adds_iff_of_tagged htag, hreference, standsFor_iff_of_names hentry hnames]
      exact or_congr_right' fun hmem => or_iff_right fun honly => hmem (by simp [honly])
    rw [hconsistent.mem_values, ← hown]
    constructor
    · rintro ⟨other, hother, hadds⟩
      by_cases hsame : other = branch
      · exact .inl (hsame ▸ hadds)
      · exact .inr ⟨other, hother, hsame, hadds⟩
    · rintro (hadds | ⟨other, hother, -, hadds⟩)
      · exact ⟨branch, hbranch, hadds⟩
      · exact ⟨other, hother, hadds⟩

def pet : Property := ⟨"pet", .detached (.object
    [("oneOf", .array
      [.object [("$ref", .string "#/Cat")], .object [("$ref", .string "#/Dog")]]),
    ("discriminator", .object
      [("propertyName", .string "kind"), ("mapping", .object
        [("cat", .string "#/Cat"), ("kitty", .string "#/Cat"), ("pup", .string "#/Dog")])])]), true⟩

def litter : Resource := ⟨"Litter", [pet], none⟩

theorem facts_of_branches (h : Branches den pet discriminator branches) :
    discriminator.targets = [("cat", "#/Cat"), ("kitty", "#/Cat"), ("pup", "#/Dog")] ∧
      branches.map (·.string? "$ref") = [some "#/Cat", some "#/Dog"] ∧
      ∀ branch ∈ branches, (tag? den discriminator branch).isSome := by
  have hfacts : ∀ found ∈ oneOf? den pet,
      found.1.targets = [("cat", "#/Cat"), ("kitty", "#/Cat"), ("pup", "#/Dog")] ∧
        found.2.items.map (·.string? "$ref") = [some "#/Cat", some "#/Dog"] ∧
        ∀ branch ∈ found.2.items, (tag? den found.1 branch).isSome := by
    decide +kernel
  obtain ⟨schema, oneOf, hresolve, hdiscriminator, hmember, rfl⟩ := h.exists_oneOf
  exact hfacts (discriminator, oneOf)
    (oneOf?_eq_some_iff.mpr ⟨schema, hresolve, hdiscriminator, hmember⟩)

theorem mapped_mem_values_litter :
    ∃ set ∈ (analyze den 32 litter).variantSets, ∃ discriminator,
      ∃ branches : List Node, ∃ branch ∈ branches, ∃ tag,
        Tagged den discriminator branch tag ∧ branch.string? "$ref" = some "#/Cat" ∧
        ("kitty", "#/Cat") ∈ discriminator.targets ∧ targetNames "#/Cat" "#/Cat" ∧
        ("kitty" ∈ set.values ↔
          ("kitty" ∈ enumTexts tag ∨
            ((enumTexts tag).length ≠ 1 ∧ tag.const.bind valueText? = some "kitty") ∨
            (LeavesOpen tag ∧ FirstNames discriminator "#/Cat" "kitty")) ∨
          ∃ other ∈ branches, other ≠ branch ∧ Adds den discriminator other "kitty") := by
  obtain ⟨set, hset⟩ : ∃ set, set ∈ (analyze den 32 litter).variantSets :=
    List.exists_mem_of_ne_nil _ (by decide +kernel)
  obtain ⟨property, hproperty, discriminator, branches, hbranches, -, hall⟩ :=
    mapped_mem_values den 32 litter set hset
  obtain rfl := List.mem_singleton.mp hproperty
  obtain ⟨htargets, hreferences, htags⟩ := facts_of_branches hbranches
  obtain ⟨branch, rest, rfl, hreference, -⟩ := List.map_eq_cons_iff.mp hreferences
  obtain ⟨tag, htag⟩ := Option.isSome_iff_exists.mp (htags branch List.mem_cons_self)
  have htagged := tag?_eq_some_iff.mp htag
  have hentry : ("kitty", "#/Cat") ∈ discriminator.targets := by simp [htargets]
  have hnames : targetNames "#/Cat" "#/Cat" := by decide
  exact ⟨set, hset, discriminator, _, branch, List.mem_cons_self, tag, htagged, hreference, hentry,
    hnames, (hall branch List.mem_cons_self tag htagged "#/Cat" hreference).2 "kitty" "#/Cat"
      hentry hnames⟩

/-- A key of the mapping may be lost although there is a variant for the branch that it names. -/
theorem exists_lost_keys :
    ∃ set ∈ (analyze den 32 litter).variantSets, ∃ property ∈ litter.properties,
      ∃ discriminator branches, Branches den property discriminator branches ∧
        set.property = property.name ∧
        discriminator.targets = [("cat", "#/Cat"), ("kitty", "#/Cat"), ("pup", "#/Dog")] ∧
        branches.map (·.string? "$ref") = [some "#/Cat", some "#/Dog"] ∧
        set.variants.map Variant.value = ["cat", "dog"] ∧
        "kitty" ∉ set.values ∧ "pup" ∉ set.values := by
  obtain ⟨set, hset, hvalues⟩ : ∃ set ∈ (analyze den 32 litter).variantSets,
      set.variants.map Variant.value = ["cat", "dog"] ∧
        "kitty" ∉ set.values ∧ "pup" ∉ set.values := by
    decide +kernel
  obtain ⟨property, hproperty, discriminator, branches, hbranches, rfl⟩ :=
    exists_branches_of_mem hset
  obtain rfl := List.mem_singleton.mp hproperty
  obtain ⟨htargets, hreferences, -⟩ := facts_of_branches hbranches
  exact ⟨_, hset, pet, hproperty, discriminator, branches, hbranches, rfl, htargets, hreferences,
    hvalues⟩

end SpecForm.Form
