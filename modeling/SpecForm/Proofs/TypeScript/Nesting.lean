import SpecForm.TypeScript.OfSchema

/-!
# How deep a type goes

A type is written out to a fixed depth.  Which depth it is makes no difference to a schema whose
parts are not nested that deeply.
-/

namespace SpecForm.TypeScript

open Schema

/-! ## One level -/

section

variable (convert : Node → TypeExpr) (schema : Node)

def namedOf : Option (List (String × Bool × TypeExpr)) :=
  (schema.member? "properties").map fun properties => properties.entries.map fun (name, node) =>
    (name, !((Keywords.ofNode schema).required.getD []).contains name, convert node)

def othersOf : Option TypeExpr :=
  (additional? schema).map fun
    | .schema node => convert node
    | .anything => .unknown

def asObject : TypeExpr :=
  objectOf (namedOf convert schema) (othersOf convert schema) (forbidsAdditional schema)

def asArray : TypeExpr := .array ((schema.member? "items").elim .unknown convert)

/-- The type of a schema that is no reference, apart from `null`, by what comes first. -/
def asWritten : TypeExpr :=
  match (Keywords.ofNode schema).const, (Keywords.ofNode schema).enumeration,
    schema.member? "allOf", (schema.member? "anyOf").or (schema.member? "oneOf") with
  | some value, _, _, _ => .ofValue value
  | none, some values, _, _ => .unionOf (values.map .ofValue)
  | none, none, some parts, _ => .intersectionOf (parts.items.map convert)
  | none, none, none, some branches => .unionOf (branches.items.map convert)
  | none, none, none, none =>
      ofDeclared schema (Keywords.ofNode schema) (fun _ => asArray convert schema)
        fun _ => asObject convert schema

end

variable {resolver : Resolver} {depth depth' : Nat} {schema : Node}
  {convert convert' : Node → TypeExpr}

theorem ofSchemaWithin_succ : ofSchemaWithin resolver (depth + 1) schema =
    if !schema.isObject then .unknown
    else match (Keywords.ofNode schema).reference, (Keywords.ofNode schema).dynamicReference with
      | some reference, _ => .named (Naming.pascalCase (Reference.targetName reference))
      | none, some _ => (resolver.resolve schema).elim .unknown (ofSchemaWithin resolver depth)
      | none, none =>
          let type := asWritten (ofSchemaWithin resolver depth) schema
          if (Keywords.ofNode schema).isNullable then type.orNull else type := by
  rw [ofSchemaWithin]
  rfl

/-! ## Nesting -/

def contents (schema : Node) : List Node :=
  (schema.member? "items").toList ++
    (schema.member? "properties").elim [] (fun properties => properties.entries.map Prod.snd) ++
    (match additional? schema with
      | some (.schema node) => [node]
      | _ => []) ++
    ["allOf", "anyOf", "oneOf"].flatMap fun keyword => (schema.member? keyword).elim [] Node.items

/-- The schemas whose types the type of a schema is made of: the target of a dynamic reference,
but not that of a reference, of which only the name is used. -/
def subschemas (resolver : Resolver) (schema : Node) : List Node :=
  match (Keywords.ofNode schema).reference, (Keywords.ofNode schema).dynamicReference with
  | some _, _ => []
  | none, some _ => (resolver.resolve schema).toList
  | none, none => contents schema

/-- Every chain of schemas, each made of the next, that starts at a schema is shorter than that. -/
def NestedBelow (resolver : Resolver) : Nat → Node → Prop
  | 0, _ => False
  | depth + 1, schema => ∀ inner ∈ subschemas resolver schema, NestedBelow resolver depth inner

theorem NestedBelow.of_empty {resolver : Resolver} {depth : Nat} {schema : Node}
    (h : subschemas resolver schema = []) : NestedBelow resolver (depth + 1) schema := by
  rw [NestedBelow, h]
  exact nofun

theorem namedOf_congr (h : ∀ node ∈ contents schema, convert node = convert' node) :
    namedOf convert schema = namedOf convert' schema := by
  cases hproperties : schema.member? "properties" with
  | none => simp only [namedOf, hproperties, Option.map_none]
  | some properties =>
      simp only [namedOf, hproperties, Option.map_some, Option.some.injEq]
      refine List.map_congr_left fun entry hentry => ?_
      rw [h entry.2 (by simp [contents, hproperties, List.mem_map_of_mem (f := Prod.snd) hentry])]

theorem othersOf_congr (h : ∀ node ∈ contents schema, convert node = convert' node) :
    othersOf convert schema = othersOf convert' schema := by
  rw [othersOf, othersOf]
  cases hadditional : additional? schema with
  | none => rfl
  | some additional =>
      cases additional with
      | anything => rfl
      | schema node => exact congrArg some (h node (by simp [contents, hadditional]))

theorem asArray_congr (h : ∀ node ∈ contents schema, convert node = convert' node) :
    asArray convert schema = asArray convert' schema := by
  rw [asArray, asArray]
  cases hitems : schema.member? "items" with
  | none => rfl
  | some items => exact congrArg TypeExpr.array (h items (by simp [contents, hitems]))

theorem map_items_congr {keyword : String} {branches : Node}
    (h : ∀ node ∈ contents schema, convert node = convert' node)
    (hkeyword : keyword ∈ ["allOf", "anyOf", "oneOf"])
    (hbranches : schema.member? keyword = some branches) :
    branches.items.map convert = branches.items.map convert' := by
  refine List.map_congr_left fun node hnode => h node ?_
  refine List.mem_append_right _ (List.mem_flatMap.mpr ⟨keyword, hkeyword, ?_⟩)
  rwa [hbranches]

theorem asWritten_congr (h : ∀ node ∈ contents schema, convert node = convert' node) :
    asWritten convert schema = asWritten convert' schema := by
  unfold asWritten
  split
  · rfl
  · rfl
  · rename_i parts _ _ hparts
    rw [map_items_congr h (by simp) hparts]
  · rename_i branches _ _ _ hbranches
    rcases Option.or_eq_some_iff.mp hbranches with hany | ⟨-, hone⟩
    · rw [map_items_congr h (by simp) hany]
    · rw [map_items_congr h (by simp) hone]
  · rw [asObject, asObject, namedOf_congr h, othersOf_congr h, asArray_congr h]

theorem ofSchemaWithin_succ_congr (h : ∀ inner ∈ subschemas resolver schema,
    ofSchemaWithin resolver depth inner = ofSchemaWithin resolver depth' inner) :
    ofSchemaWithin resolver (depth + 1) schema = ofSchemaWithin resolver (depth' + 1) schema := by
  rw [ofSchemaWithin_succ, ofSchemaWithin_succ]
  rw [subschemas] at h
  split
  · rfl
  · split
    · rfl
    · rename_i hreference hdynamic
      rw [hreference, hdynamic] at h
      cases hresolve : resolver.resolve schema with
      | none => rfl
      | some target => exact h target (by simp [hresolve])
    · rename_i hreference hdynamic
      rw [hreference, hdynamic] at h
      rw [asWritten_congr h]

theorem ofSchemaWithin_eq_of_nestedBelow (h : NestedBelow resolver depth schema)
    (hdepth : depth ≤ depth') :
    ofSchemaWithin resolver depth' schema = ofSchemaWithin resolver depth schema := by
  induction depth generalizing schema depth' with
  | zero => exact h.elim
  | succ depth ih =>
      obtain ⟨levels, rfl⟩ := Nat.exists_eq_add_of_le' (Nat.one_le_of_lt hdepth)
      exact ofSchemaWithin_succ_congr fun inner hinner => ih (h inner hinner) (by omega)

end SpecForm.TypeScript
