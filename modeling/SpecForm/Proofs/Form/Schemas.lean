import SpecForm.Form.Analyze
import SpecForm.Proofs.Resolve.Placed

/-!
# The schemas of a form

A walk that starts at a named schema only comes to schemas of the loaded documents, and to
copies of them that stand under the notes of references.  A schema is such a node if it was
resolved, and its properties, parts, items and map values are in the documents themselves.
So the key of a schema tells whether it has properties.
-/

namespace SpecForm.Form

open Store

variable {resolver : Resolver} {store : Store} {documents : List (String × Json)}
  {schema other node : Node} {key : Key} {found kept : Node → Prop}

/-- What holds of the schemas that are found, and what of their members that are no notes and
of whatever is in these. -/
structure Passes (resolver : Resolver) (found kept : Node → Prop) : Prop where
  fragment : ∀ {fragment : String} {schema : Node},
    resolver.resolveFragment fragment = some schema → found schema
  resolve : ∀ {node schema : Node}, found node → resolver.resolve node = some schema → found schema
  member : ∀ {schema child : Node} {name : String}, found schema → name ∉ Node.noteNames →
    schema.member? name = some child → kept child
  entries : ∀ {node : Node} {entry : String × Node}, kept node → entry ∈ node.entries → kept entry.2
  items : ∀ {node item : Node}, kept node → item ∈ node.items → kept item
  found_of_kept : ∀ {node : Node}, kept node → found node

namespace Passes

theorem mirrors (hstore : resolver.store = .ofDocuments documents) :
    Passes resolver resolver.store.Mirrors resolver.store.Faithful where
  fragment := Resolver.mirrors_of_resolveFragment hstore
  resolve := Resolver.mirrors_of_resolve hstore
  member := Mirrors.of_member?
  entries := Faithful.of_mem_entries
  items := Faithful.of_mem_items
  found_of_kept := Faithful.mirrors

theorem placed (hstore : resolver.store = .ofDocuments documents) :
    Passes resolver Node.Placed Node.Placed where
  fragment := Resolver.placed_of_resolveFragment hstore
  resolve := Resolver.placed_of_resolve hstore
  member hschema _ := hschema.of_member?
  entries := Node.Placed.of_mem_entries
  items := Node.Placed.of_mem_items
  found_of_kept := id

theorem and {found' kept' : Node → Prop} (h : Passes resolver found kept)
    (h' : Passes resolver found' kept') :
    Passes resolver (fun node => found node ∧ found' node)
      (fun node => kept node ∧ kept' node) where
  fragment hschema := ⟨h.fragment hschema, h'.fragment hschema⟩
  resolve hnode hschema := ⟨h.resolve hnode.1 hschema, h'.resolve hnode.2 hschema⟩
  member hschema hname hchild := ⟨h.member hschema.1 hname hchild, h'.member hschema.2 hname hchild⟩
  entries hnode hentry := ⟨h.entries hnode.1 hentry, h'.entries hnode.2 hentry⟩
  items hnode hitem := ⟨h.items hnode.1 hitem, h'.items hnode.2 hitem⟩
  found_of_kept hnode := ⟨h.found_of_kept hnode.1, h'.found_of_kept hnode.2⟩

end Passes

theorem hasProperties_eq (schema : Node) :
    hasProperties schema = (schema.value.member? "properties").any Json.isObject := by
  unfold hasProperties Node.member?
  by_cases hhas : schema.has "properties"
  · rw [if_pos hhas, Node.member?_value_of_has hhas, Option.any_some, Option.any_some, Node.isObject]
  · rw [if_neg hhas, Option.any_none, Option.not_isSome_iff_eq_none.mp hhas, Option.any_none]

theorem hasProperties_congr (h : store.Mirrors schema) (h' : store.Mirrors other)
    (hkey : schema.key? = some key) (hkey' : other.key? = some key) :
    hasProperties schema = hasProperties other := by
  rw [hasProperties_eq, hasProperties_eq, h.member?_congr h' hkey hkey' (by decide)]

/-! ## Merging -/

theorem Merge.exists_holder_of_mem_parts (h : node ∈ parts schema) :
    ∃ holder, schema.member? "allOf" = some holder ∧ node ∈ holder.items := by
  cases hmember : schema.member? "allOf" with
  | none => simp [parts, hmember] at h
  | some holder => exact ⟨holder, rfl, by rwa [parts, hmember, Option.elim_some] at h⟩

theorem Passes.of_mem_parts (h : Passes resolver found kept) (hschema : found schema)
    (hpart : node ∈ Merge.parts schema) : found node := by
  obtain ⟨holder, hmember, hitem⟩ := Merge.exists_holder_of_mem_parts hpart
  exact h.found_of_kept (h.items (h.member hschema (by decide) hmember) hitem)

namespace Merge

variable {merge : Merge}

structure Sound (found kept : Node → Prop) (merge : Merge) : Prop where
  properties : ∀ entry ∈ merge.properties, kept entry.2
  pending : ∀ schema ∈ merge.pending, found schema

theorem mem_addProperty {properties : List (String × Node)} {entry added : String × Node}
    (h : entry ∈ addProperty properties added) : entry ∈ properties ∨ entry = added := by
  unfold addProperty at h
  split at h
  · exact .inl h
  · simpa using h

theorem mem_foldl_addProperty {own properties : List (String × Node)} {entry : String × Node}
    (h : entry ∈ own.foldl addProperty properties) : entry ∈ properties ∨ entry ∈ own := by
  induction own generalizing properties with
  | nil => exact .inl h
  | cons first rest ih =>
      rcases ih h with hbefore | hrest
      · rcases mem_addProperty hbefore with hold | rfl
        · exact .inl hold
        · exact .inr List.mem_cons_self
      · exact .inr (List.mem_cons_of_mem _ hrest)

theorem Sound.visit (hpasses : Passes resolver found kept) (h : merge.Sound found kept)
    (hschema : found schema) : (merge.visit schema).Sound found kept where
  properties entry hentry := by
    rcases mem_foldl_addProperty hentry with hold | hown
    · exact h.properties entry hold
    · cases hmember : schema.member? "properties" with
      | none => simp [hmember] at hown
      | some holder =>
          rw [hmember, Option.elim_some] at hown
          exact hpasses.entries (hpasses.member hschema (by decide) hmember) hown
  pending part hpart := by
    rcases List.mem_append.mp hpart with hown | hold
    · exact hpasses.of_mem_parts hschema hown
    · exact h.pending part hold

theorem Sound.step (hpasses : Passes resolver found kept) (h : merge.Sound found kept) :
    (merge.step resolver).Sound found kept := by
  unfold Merge.step
  split
  · exact h
  · rename_i next rest hpending
    have hnext : found next := h.pending next (hpending ▸ List.mem_cons_self)
    have hrest : ∀ seen, Sound found kept ⟨merge.properties, merge.required, seen, rest⟩ :=
      fun _ => ⟨h.properties, fun part hpart =>
        h.pending part (hpending ▸ List.mem_cons_of_mem _ hpart)⟩
    dsimp only
    split
    · exact hrest _
    · rename_i schema hresolve
      have hschema := hpasses.resolve hnext hresolve
      split
      · exact (hrest _).visit hpasses hschema
      · split
        · exact hrest _
        · exact (hrest _).visit hpasses hschema

theorem exhaust_induction {property : Merge → Prop}
    (hstep : ∀ merge, property merge → property (merge.step resolver)) (h : property merge)
    (n : Nat) : property (merge.exhaust resolver n) := by
  induction n generalizing merge with
  | zero => exact hstep merge h
  | succ n ih =>
      rw [Merge.exhaust]
      split
      · exact ih h
      · exact ih (ih h)

end Merge

theorem Passes.of_mem_mergedProperties (h : Passes resolver found kept) (hschema : found schema)
    {property : Property} (hproperty : property ∈ mergedProperties resolver schema) :
    kept property.schema := by
  have hstart : (Merge.start schema).Sound found kept :=
    ⟨fun _ hmem => absurd hmem List.not_mem_nil, fun part hpart => by
      rwa [List.mem_singleton.mp hpart]⟩
  have hsound := Merge.exhaust_induction (fun _ hmerge => hmerge.step h) hstart
  obtain ⟨entry, hentry, rfl⟩ := List.mem_map.mp hproperty
  exact (hsound _).properties entry hentry

theorem faithful_of_mem_mergedProperties (hstore : resolver.store = .ofDocuments documents)
    (hschema : resolver.store.Mirrors schema) {property : Property}
    (h : property ∈ mergedProperties resolver schema) :
    resolver.store.Faithful property.schema :=
  (Passes.mirrors hstore).of_mem_mergedProperties hschema h

/-! ## Maps and items -/

theorem mapParts_cases (hmember : ∀ {child : Node} {name : String}, name ∉ Node.noteNames →
      schema.member? name = some child → kept child)
    (hentries : ∀ {node : Node} {entry : String × Node}, kept node → entry ∈ node.entries →
      kept entry.2) :
    (mapParts resolver schema).2 = .detached (.object []) ∨ kept (mapParts resolver schema).2 := by
  unfold mapParts
  dsimp only
  split
  · rename_i pattern value hfirst
    obtain ⟨patterns, hpatterns, hhead⟩ := Option.bind_eq_some_iff.mp hfirst
    exact .inr (hentries (hmember (by decide) hpatterns) (List.mem_of_mem_head? hhead))
  · dsimp only
    cases hvalue : ["additionalProperties", "unevaluatedProperties"].findSome? fun keyword =>
        (schema.member? keyword).filter Node.isObject with
    | none => exact .inl rfl
    | some value =>
        obtain ⟨keyword, hkeyword, hfilter⟩ := List.exists_of_findSome?_eq_some hvalue
        have hname : keyword ∉ Node.noteNames := by
          rcases List.mem_cons.mp hkeyword with rfl | hlast
          · decide
          · rw [List.mem_singleton.mp hlast]
            decide
        exact .inr (hmember hname (Option.filter_eq_some_iff.mp hfilter).1)

theorem faithful_mapParts (hschema : store.Mirrors schema) :
    store.Faithful (mapParts resolver schema).2 := by
  have hcases : (mapParts resolver schema).2 = .detached (.object []) ∨
      store.Faithful (mapParts resolver schema).2 :=
    mapParts_cases hschema.of_member? Faithful.of_mem_entries
  rcases hcases with hnone | hkept
  · rw [hnone]
    exact .of_key?_eq_none rfl
  · exact hkept

theorem Passes.items_of_resolve (h : Passes resolver found kept) (hschema : found schema)
    {items : Node} (hitems : ((schema.member? "items").bind resolver.resolve) = some items) :
    found items := by
  obtain ⟨member, hmember, hresolve⟩ := Option.bind_eq_some_iff.mp hitems
  exact h.resolve (h.found_of_kept (h.member hschema (by decide) hmember)) hresolve

theorem mirrors_items (hstore : resolver.store = .ofDocuments documents)
    (hschema : resolver.store.Mirrors schema) {items : Node}
    (h : ((schema.member? "items").bind resolver.resolve) = some items) :
    resolver.store.Mirrors items :=
  (Passes.mirrors hstore).items_of_resolve hschema h

/-! ## Branches -/

def oneOf? (resolver : Resolver) (property : Property) : Option (Schema.Discriminator × Node) := do
  let schema ← resolver.resolve property.schema
  let discriminator ← (Schema.Keywords.ofNode schema).discriminator
  let oneOf ← schema.member? "oneOf"
  return (discriminator, oneOf)

theorem oneOf?_eq_some_iff {property : Property} {discriminator : Schema.Discriminator}
    {oneOf : Node} :
    oneOf? resolver property = some (discriminator, oneOf) ↔
      ∃ schema, resolver.resolve property.schema = some schema ∧
        (Schema.Keywords.ofNode schema).discriminator = some discriminator ∧
        schema.member? "oneOf" = some oneOf := by
  simp only [oneOf?, Option.bind_eq_bind, Option.pure_def, Option.bind_eq_some_iff,
    Option.some.injEq, Prod.mk.injEq]
  constructor
  · rintro ⟨schema, hresolve, _, hdiscriminator, _, hmember, rfl, rfl⟩
    exact ⟨schema, hresolve, hdiscriminator, hmember⟩
  · rintro ⟨schema, hresolve, hdiscriminator, hmember⟩
    exact ⟨schema, hresolve, _, hdiscriminator, _, hmember, rfl, rfl⟩

/-! ## Resources -/

theorem Passes.of_ofComponent (h : Passes resolver found kept) {dialect : Dialect} {name : String}
    {resource : Resource} (hresource : Resource.ofComponent resolver dialect name = .ok resource) :
    ∀ schema ∈ resource.schema, found schema := by
  unfold Resource.ofComponent at hresource
  split at hresource
  · rename_i named hnamed
    obtain rfl := Except.ok.inj hresource
    exact fun schema hschema => h.resolve (h.fragment hnamed) hschema
  · cases hresource

theorem exists_schema_of_ofComponent {dialect : Dialect} {name : String} {resource : Resource}
    (h : Resource.ofComponent resolver dialect name = .ok resource) {property : Property}
    (hproperty : property ∈ resource.properties) :
    ∃ schema ∈ resource.schema, property ∈ mergedProperties resolver schema := by
  unfold Resource.ofComponent at h
  split at h
  · rename_i named hnamed
    obtain rfl := Except.ok.inj h
    cases hresolve : resolver.resolve named with
    | none => simp [Resource.ofSchema, hresolve] at hproperty
    | some schema =>
        simp only [Resource.ofSchema, hresolve, Option.elim_some] at hproperty
        exact ⟨schema, hresolve, hproperty⟩
  · cases h

theorem faithful_of_ofComponent (hstore : resolver.store = .ofDocuments documents)
    {dialect : Dialect} {name : String} {resource : Resource}
    (h : Resource.ofComponent resolver dialect name = .ok resource) {property : Property}
    (hproperty : property ∈ resource.properties) : resolver.store.Faithful property.schema := by
  obtain ⟨schema, hschema, hmerged⟩ := exists_schema_of_ofComponent h hproperty
  exact (Passes.mirrors hstore).of_mem_mergedProperties
    ((Passes.mirrors hstore).of_ofComponent h schema hschema) hmerged

theorem exists_ofComponent {dialect : Dialect} {name : String}
    {property : Resource → Prop}
    (h : ∃ resource ∈ (Resource.ofComponent resolver dialect name).toOption, property resource) :
    ∃ resource, Resource.ofComponent resolver dialect name = .ok resource ∧ property resource := by
  obtain ⟨resource, hmem, hproperty⟩ := h
  refine ⟨resource, ?_, hproperty⟩
  cases hcomponent : Resource.ofComponent resolver dialect name with
  | ok found =>
      rw [hcomponent] at hmem
      exact congrArg Except.ok (Option.some.inj hmem)
  | error fault =>
      rw [hcomponent] at hmem
      cases hmem

end SpecForm.Form
