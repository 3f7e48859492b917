import SpecForm.Proofs.Form.Variants

/-!
# Levels of a walk

Each level of a walk expands a schema that is not being expanded around it, and every schema
that is expanded is an object of the documents.  So where there are as many levels as objects
that are not being expanded, there is a level for every schema that is found, and again enough
of them inside it.
-/

namespace SpecForm.Form

open Schema Store

variable {resolver : Resolver} {documents : List (String × Json)} {store : Store}
  {depth levels : Nat} {active : List (Key × String)} {property : Property}
  {groupName : Option String} {schema node : Node} {form : String}
  {wrap : String → List Control → Control}

/-! ## Schemas that are expanded -/

/-- A schema that was found in the documents. -/
def Seated (store : Store) (schema : Node) : Prop := store.Mirrors schema ∧ schema.Placed

/-- A schema as a property has it: one in the documents, or that of the values of a map that
says nothing of them. -/
def Given (store : Store) (node : Node) : Prop :=
  node = .detached (.object []) ∨ store.Faithful node ∧ node.Placed

theorem passes_seated (hstore : resolver.store = .ofDocuments documents) :
    Passes resolver (Seated resolver.store) fun node =>
      resolver.store.Faithful node ∧ node.Placed :=
  (Passes.mirrors hstore).and (Passes.placed hstore)

theorem has_of_any_member? {name : String} {test : Node → Bool}
    (h : (schema.member? name).any test) : schema.has name := by
  by_contra hnot
  simp [Node.member?, hnot] at h

theorem has_properties (h : hasProperties schema) : schema.has "properties" := has_of_any_member? h

theorem exists_has_of_map (h : classify schema (Keywords.ofNode schema) = .map) :
    ∃ name ∉ Node.noteNames, schema.has name := by
  have hdynamic := hasDynamicMembers_of_map h
  unfold hasDynamicMembers at hdynamic
  rw [Bool.or_eq_true] at hdynamic
  rcases hdynamic with hpatterns | hother
  · exact ⟨_, by decide, has_of_any_member? hpatterns⟩
  · obtain ⟨keyword, hkeyword, hmember⟩ := List.any_eq_true.mp hother
    refine ⟨keyword, ?_, has_of_any_member? hmember⟩
    simp only [List.mem_cons, List.not_mem_nil, or_false] at hkeyword
    rcases hkeyword with rfl | rfl <;> decide

theorem Given.seated (hstore : resolver.store = .ofDocuments documents)
    (h : Given resolver.store node) (hresolve : resolver.resolve node = some schema)
    (hshape : classify schema (Keywords.ofNode schema) ≠ .leaf) : Seated resolver.store schema := by
  rcases h with rfl | hkept
  · obtain rfl : Node.detached (.object []) = schema := Option.some.inj hresolve
    exact absurd rfl hshape
  · have hpasses := passes_seated hstore
    exact hpasses.resolve (hpasses.found_of_kept hkept) hresolve

theorem Seated.given_of_merged (hstore : resolver.store = .ofDocuments documents)
    (h : Seated resolver.store schema) (hproperty : property ∈ mergedProperties resolver schema) :
    Given resolver.store property.schema :=
  .inr ((passes_seated hstore).of_mem_mergedProperties h hproperty)

theorem Seated.given_of_map (hstore : resolver.store = .ofDocuments documents)
    (h : Seated resolver.store schema) : Given resolver.store (valueProperty resolver schema).schema :=
  mapParts_cases ((passes_seated hstore).member h) (passes_seated hstore).entries

theorem Holds.seated (hstore : resolver.store = .ofDocuments documents)
    (h : Holds resolver property groupName schema form wrap)
    (hproperty : Given resolver.store property.schema) : Seated resolver.store schema := by
  cases h with
  | group hresolve hshape => exact hproperty.seated hstore hresolve (by simp [hshape])
  | items hresolve hshape hitems =>
      exact (passes_seated hstore).items_of_resolve
        (hproperty.seated hstore hresolve (by simp [hshape])) (Option.filter_eq_some_iff.mp hitems).1

theorem Holds.exists_has (h : Holds resolver property groupName schema form wrap) :
    ∃ name ∉ Node.noteNames, schema.has name := by
  refine ⟨"properties", by decide, has_properties ?_⟩
  cases h with
  | group _ hshape => exact hasProperties_of_group hshape
  | items _ _ hitems => exact (Option.filter_eq_some_iff.mp hitems).2

/-! ## Levels -/

/-- The schemas that are being expanded are different objects of the documents, and there are
levels for all the others. -/
structure Ample (store : Store) (depth : Nat) (active : List (Key × String)) : Prop where
  nodup : (active.map Prod.fst).Nodup
  objects : active.map Prod.fst ⊆ store.objectKeys
  enough : store.objects.length ≤ depth + active.length

theorem Ample.mono (h : Ample store depth active) (hle : depth ≤ levels) :
    Ample store levels active :=
  ⟨h.nodup, h.objects, by have := h.enough; omega⟩

theorem Ample.enter (horderly : store.Orderly) (h : Ample store depth active)
    (hseated : Seated store schema) (hhas : ∃ name ∉ Node.noteNames, schema.has name)
    (hnone : enclosing? active schema = none) (form : String) :
    ∃ levels, depth = levels + 1 ∧ Ample store levels (Walk.under active schema form) := by
  obtain ⟨name, hname, hhas⟩ := hhas
  obtain ⟨key, hobject, hkey⟩ :=
    exists_objectKey_of_has horderly hseated.2 hseated.1 hhas hname
  have hunder : Walk.under active schema form = active ++ [(key, form)] := by
    rw [Walk.under, hkey]
    rfl
  have hnodup := nodup_under h.nodup hnone form
  have hobjects : (Walk.under active schema form).map Prod.fst ⊆ store.objectKeys := by
    rw [hunder, List.map_append]
    exact List.append_subset.mpr ⟨h.objects, by simpa using hobject⟩
  have hlength := (hnodup.subperm hobjects).length_le.trans store.length_objectKeys_le
  rw [hunder, List.length_map, List.length_append, List.length_singleton] at hlength
  have henough := h.enough
  refine ⟨depth - 1, by omega, hnodup, hobjects, ?_⟩
  rw [hunder, List.length_append, List.length_singleton]
  omega

structure Roomy (resolver : Resolver) (depth : Nat) (active : List (Key × String))
    (property : Property) : Prop where
  filled : ∃ documents, resolver.store = .ofDocuments documents
  given : Given resolver.store property.schema
  ample : Ample resolver.store depth active

namespace Roomy

theorem inner (h : Roomy resolver depth active property)
    (hholds : Holds resolver property groupName schema form wrap)
    (hnone : enclosing? active schema = none) :
    ∃ levels, depth = levels + 1 ∧ ∀ inner ∈ mergedProperties resolver schema,
      Roomy resolver levels (Walk.under active schema form) inner := by
  obtain ⟨documents, hstore⟩ := h.filled
  have hseated := hholds.seated hstore h.given
  obtain ⟨levels, rfl, hample⟩ :=
    h.ample.enter (hstore ▸ .ofDocuments documents) hseated hholds.exists_has hnone form
  exact ⟨levels, rfl, fun inner hinner =>
    ⟨h.filled, hseated.given_of_merged hstore hinner, hample⟩⟩

theorem value (h : Roomy resolver depth active property)
    (hresolve : resolver.resolve property.schema = some schema)
    (hshape : classify schema (Keywords.ofNode schema) = .map)
    (hnone : enclosing? active schema = none) :
    ∃ levels, depth = levels + 1 ∧ Roomy resolver levels
      (Walk.under active schema property.valueForm) (valueProperty resolver schema) := by
  obtain ⟨documents, hstore⟩ := h.filled
  have hseated := h.given.seated hstore hresolve (by simp [hshape])
  obtain ⟨levels, rfl, hample⟩ := h.ample.enter (hstore ▸ .ofDocuments documents) hseated
    (exists_has_of_map hshape) hnone property.valueForm
  exact ⟨levels, rfl, h.filled, hseated.given_of_map hstore, hample⟩

end Roomy

/-! ## The first level -/

theorem exists_has_of_mergedProperties (h : property ∈ mergedProperties resolver schema) :
    ∃ name ∉ Node.noteNames, schema.has name := by
  by_contra hnone
  push Not at hnone
  have hmember : ∀ name ∉ Node.noteNames, schema.member? name = none := fun name hname => by
    rw [Node.member?, if_neg (hnone name hname)]
  have hvalue : ∀ name ∉ Node.noteNames, schema.value.member? name = none := fun name hname =>
    Option.not_isSome_iff_eq_none.mp (hnone name hname)
  have hresolve : resolver.resolve schema = some schema := by
    rw [Resolver.resolve, Resolver.resolveInScope, Node.role, hvalue "$ref" (by decide),
      hvalue "$dynamicRef" (by decide)]
  -- The schema itself is visited, which adds nothing, and then nothing is pending.
  have hvisit : ∀ merge : Merge, (merge.visit schema).properties = merge.properties ∧
      (merge.visit schema).pending = merge.pending := fun merge => by
    simp [Merge.visit, Merge.parts, hmember "properties" (by decide), hmember "allOf" (by decide)]
  have hempty : ∀ merge : Merge,
      merge.properties = [] ∧ (merge.pending = [] ∨ merge.pending = [schema]) →
      (merge.step resolver).properties = [] ∧
        ((merge.step resolver).pending = [] ∨ (merge.step resolver).pending = [schema]) := by
    rintro merge ⟨hproperties, hpending | hpending⟩
    · rw [Merge.step, hpending]
      exact ⟨hproperties, .inl hpending⟩
    · rw [Merge.step, hpending]
      simp only [hresolve]
      split
      · exact ⟨(hvisit _).1.trans hproperties, .inl (hvisit _).2⟩
      · split
        · exact ⟨hproperties, .inl rfl⟩
        · exact ⟨(hvisit _).1.trans hproperties, .inl (hvisit _).2⟩
  obtain ⟨entry, hentry, -⟩ := List.mem_map.mp h
  have hnothing : ∀ n, ((Merge.start schema).exhaust resolver n).properties = [] := fun n =>
    (Merge.exhaust_induction hempty ⟨rfl, .inr rfl⟩ n).1
  rw [hnothing] at hentry
  cases hentry

/-- The model is a named schema of the documents, and the walk may go as deep as there are
objects in them. -/
structure Resource.Whole (resolver : Resolver) (depth : Nat) (resource : Resource) : Prop where
  exists_component : ∃ documents dialect name, resolver.store = .ofDocuments documents ∧
    Resource.ofComponent resolver dialect name = .ok resource
  enough : resolver.store.objects.length ≤ depth

namespace Resource.Whole

variable {resource : Resource}

/-- There are levels enough for each property of a model, and one to spare: none was needed for
the schema of the model. -/
theorem ample_opened (h : resource.Whole resolver depth) (hproperty : property ∈ resource.properties) :
    ∃ documents, resolver.store = .ofDocuments documents ∧
      (resolver.store.Faithful property.schema ∧ property.schema.Placed) ∧
      Ample resolver.store (depth - 1) resource.opened := by
  obtain ⟨documents, dialect, name, hstore, hresource⟩ := h.exists_component
  obtain ⟨schema, hschema, hmerged⟩ := exists_schema_of_ofComponent hresource hproperty
  have hpasses := passes_seated hstore
  have hseated := hpasses.of_ofComponent hresource schema hschema
  refine ⟨documents, hstore, hpasses.of_mem_mergedProperties hseated hmerged, ?_⟩
  have hstart : Ample resolver.store depth [] := ⟨List.nodup_nil, List.nil_subset _, h.enough⟩
  obtain ⟨levels, rfl, hopened⟩ := hstart.enter (hstore ▸ .ofDocuments documents) hseated
    (exists_has_of_mergedProperties hmerged) (by simp [enclosing?]) (formName resource.modelName)
  rwa [Resource.opened, hschema]

theorem roomy (h : resource.Whole resolver depth) (hproperty : property ∈ resource.properties) :
    Roomy resolver depth resource.opened property := by
  obtain ⟨documents, hstore, hkept, hample⟩ := h.ample_opened hproperty
  exact ⟨⟨documents, hstore⟩, .inr hkept, hample.mono (Nat.sub_le _ _)⟩

theorem roomy_variant (h : resource.Whole resolver depth) (hproperty : property ∈ resource.properties)
    {discriminator : Discriminator} {branches : List Node} {branch : Node} {inner : Property}
    (hbranches : Branches resolver property discriminator branches) (hbranch : branch ∈ branches)
    (hresolve : resolver.resolve branch = some schema)
    (hinner : inner ∈ mergedProperties resolver schema) :
    Roomy resolver (depth - 1) resource.opened inner := by
  obtain ⟨documents, hstore, hkept, hample⟩ := h.ample_opened hproperty
  obtain ⟨own, oneOf, hown, -, hmember, rfl⟩ := hbranches.exists_oneOf
  have hpasses := passes_seated hstore
  have honeOf := hpasses.member (hpasses.resolve (hpasses.found_of_kept hkept) hown) (by decide)
    hmember
  have hschema := hpasses.resolve (hpasses.found_of_kept (hpasses.items honeOf hbranch)) hresolve
  exact ⟨⟨documents, hstore⟩, hschema.given_of_merged hstore hinner, hample⟩

end Resource.Whole

end SpecForm.Form
