import SpecForm.Proofs.Form.Building
import SpecForm.Proofs.TypeScript.Nesting

/-!
# Maps and their types

The type of a map is told twice: its control takes it from the control of the values, and the
type of its schema is written out from the schema alone.  Both look for the schema of the values
in their own way, and they agree where they find the same and it leads somewhere.
-/

namespace SpecForm.Form

open Schema Control TypeScript

variable {resolver : Resolver} {depth : Nat} {active : List (Key × String)} {property : Property}
  {groupName : Option String} {schema node : Node}

/-- A schema that is an object, if it is declared to be anything, and has no keyword that comes
before this in its type. -/
structure Bare (schema : Node) : Prop where
  reference : (Keywords.ofNode schema).reference = none
  dynamicReference : (Keywords.ofNode schema).dynamicReference = none
  const : (Keywords.ofNode schema).const = none
  enumeration : (Keywords.ofNode schema).enumeration = none
  branches : ∀ keyword ∈ ["allOf", "anyOf", "oneOf"], schema.member? keyword = none
  types : (Keywords.ofNode schema).typeList = [] ∨ (Keywords.ofNode schema).typeList = ["object"]
  nullable : (Keywords.ofNode schema).isNullable = false

theorem Bare.of_absent (h : ∀ keyword ∈ ["$ref", "$dynamicRef", "const", "enum", "allOf", "anyOf",
    "oneOf", "type", "nullable"], ¬schema.has keyword) : Bare schema := by
  have hnone : ∀ keyword ∈ ["$ref", "$dynamicRef", "const", "enum", "allOf", "anyOf", "oneOf",
      "type", "nullable"], schema.value.member? keyword = none := fun keyword hkeyword =>
    Option.not_isSome_iff_eq_none.mp (h keyword hkeyword)
  simp only [List.forall_mem_cons] at h hnone
  obtain ⟨href, hdynamic, hconst, henum, hall, hany, hone, htype, hnullable, -⟩ := hnone
  have htypes : (Keywords.ofNode schema).typeList = [] := by
    simp [Keywords.typeList, Keywords.ofNode, Keywords.ofJson, htype]
  exact
    { reference := by simp [Keywords.ofNode, Keywords.ofJson, href]
      dynamicReference := by simp [Keywords.ofNode, Keywords.ofJson, hdynamic]
      const := by simp [Keywords.ofNode, Keywords.ofJson, hconst]
      enumeration := by simp [Keywords.ofNode, Keywords.ofJson, henum]
      branches := by simp [Node.member?, Node.has, hall, hany, hone]
      types := .inl htypes
      nullable := by
        rw [Keywords.isNullable, Keywords.hasType, htypes]
        simp [Keywords.ofNode, Keywords.ofJson, hnullable] }

def recordText (valueText : String) : String := "Record<string, " ++ valueText ++ ">"

theorem recordText_inj {text other : String} :
    recordText text = recordText other ↔ text = other := by
  simp [recordText]

theorem text_stringRecord (type : TypeExpr) :
    (TypeExpr.stringRecord type).text = recordText type.text := by
  simp [TypeExpr.stringRecord, TypeExpr.text, recordText, Primitive.text]

theorem text_unknown : TypeExpr.unknown.text = "unknown" := by
  simp [TypeExpr.unknown, TypeExpr.text, Primitive.text]

/-! ## The type of a bare map -/

theorem isObjectLike_of_map (h : classify schema (Keywords.ofNode schema) = .map) :
    isObjectLike schema := by
  have hdynamic := hasDynamicMembers_of_map h
  simp only [hasDynamicMembers, Bool.or_eq_true, Option.any_eq_true, List.any_eq_true,
    Node.member?_eq_some_iff] at hdynamic
  simp only [isObjectLike, List.any_eq_true]
  rcases hdynamic with ⟨_, ⟨hhas, -⟩, -⟩ | ⟨keyword, hkeyword, _, ⟨hhas, -⟩, -⟩
  · exact ⟨_, by simp, hhas⟩
  · have hsubset : ["additionalProperties", "unevaluatedProperties"] ⊆
        ["properties", "additionalProperties", "patternProperties", "unevaluatedProperties"] := by
      decide
    exact ⟨keyword, hsubset hkeyword, hhas⟩

theorem unionOf_singleton {type : TypeExpr} (h : type.isUnion = false) :
    TypeExpr.unionOf [type] = type := by
  have hmembers : type.unionMembers = [type] := by
    unfold TypeExpr.unionMembers
    split
    · cases h
    · rfl
  rw [TypeExpr.unionOf, List.flatMap_singleton, hmembers]
  rfl

theorem isUnion_objectOf (named : Option (List (String × Bool × TypeExpr)))
    (others : Option TypeExpr) (forbids : Bool) :
    (objectOf named others forbids).isUnion = false := by
  unfold objectOf
  split <;> first | rfl | (split <;> rfl)

theorem asWritten_of_bare (hbare : Bare schema) (hlike : isObjectLike schema)
    (convert : Node → TypeExpr) : asWritten convert schema = asObject convert schema := by
  have hbranches := hbare.branches
  simp only [List.forall_mem_cons] at hbranches
  obtain ⟨hall, hany, hone, -⟩ := hbranches
  rw [asWritten, hbare.const, hbare.enumeration, hall, hany, hone]
  change ofDeclared _ _ _ _ = _
  rw [ofDeclared, Keywords.nonNullTypes, Keywords.hasType]
  rcases hbare.types with htypes | htypes <;> rw [htypes]
  · simp [hlike]
  · exact unionOf_singleton (isUnion_objectOf _ _ _)

theorem entries_of_not_isObject (h : ¬node.isObject) : node.entries = [] := by
  unfold Node.isObject Json.isObject at h
  rw [Node.entries, Node.members, Option.not_isSome_iff_eq_none.mp h]
  rfl

theorem namedOf_of_map (h : classify schema (Keywords.ofNode schema) = .map)
    (convert : Node → TypeExpr) :
    namedOf convert schema = if schema.has "properties" then some [] else none := by
  have hproperties := not_hasProperties_of_map h
  rw [namedOf, Node.member?]
  rw [hasProperties, Node.member?] at hproperties
  split
  · rename_i hhas
    rw [if_pos hhas, Option.any_some] at hproperties
    rw [Option.map_some, entries_of_not_isObject (by simp [hproperties]), List.map_nil]
  · rfl

theorem typeText_of_bare (hbare : Bare schema)
    (hmap : classify schema (Keywords.ofNode schema) = .map) :
    typeText resolver schema = match additional? schema with
      | some (.schema node) => recordText (ofSchemaWithin resolver maxDepth node).text
      | some .anything => recordText "unknown"
      | none =>
          if schema.has "properties" || forbidsAdditional schema then "\x7b\x7d"
          else recordText "unknown" := by
  have hlike := isObjectLike_of_map hmap
  have hobject : schema.isObject := by
    obtain ⟨keyword, -, hhas⟩ := List.any_eq_true.mp hlike
    exact Node.isObject_of_has hhas
  have htype : ofSchema resolver schema = asObject (ofSchemaWithin resolver maxDepth) schema := by
    rw [ofSchema, ofSchemaWithin_succ, hobject, hbare.reference, hbare.dynamicReference,
      hbare.nullable, asWritten_of_bare hbare hlike]
    rfl
  rw [typeText, htype, asObject, namedOf_of_map hmap, othersOf]
  cases additional? schema with
  | none =>
      cases schema.has "properties" <;> cases forbidsAdditional schema <;>
        simp [objectOf, TypeExpr.text, text_stringRecord, text_unknown]
  | some additional =>
      cases additional <;> cases schema.has "properties" <;>
        simp [objectOf, text_stringRecord, text_unknown]

/-! ## The schema of the values -/

def additionalAt? (schema : Node) (keyword : String) : Option Additional :=
  match schema.member? keyword with
  | some node =>
      if node.isObject then some (.schema node)
      else if node.value.asBool? = some true then some .anything
      else none
  | none => none

def describedBy? : Additional → Option Node
  | .schema node => some node
  | .anything => none

theorem filter_isObject_eq (schema : Node) (keyword : String) :
    (schema.member? keyword).filter Node.isObject =
      (additionalAt? schema keyword).bind describedBy? := by
  rw [additionalAt?]
  cases schema.member? keyword with
  | none => rfl
  | some node =>
      dsimp only
      split
      · rename_i hobject
        rw [Option.filter_some_pos hobject]
        rfl
      · rename_i hobject
        rw [Option.filter_some_neg (by simpa using hobject)]
        split <;> rfl

section

variable (schema)

def patternSchema? : Option Node :=
  ((schema.member? "patternProperties").bind fun patterns => patterns.entries.head?).map Prod.snd

theorem additional?_eq : additional? schema =
    ((patternSchema? schema).map .schema).or ((additionalAt? schema "additionalProperties").or
      (additionalAt? schema "unevaluatedProperties")) := by
  unfold additional? patternSchema?
  dsimp only
  cases (schema.member? "patternProperties").bind fun patterns => patterns.entries.head? with
  | some first => rfl
  | none =>
      change ["additionalProperties", "unevaluatedProperties"].findSome? (additionalAt? schema) = _
      rw [List.findSome?_cons, List.findSome?_cons, List.findSome?_nil]
      cases additionalAt? schema "additionalProperties" with
      | some found => rfl
      | none => cases additionalAt? schema "unevaluatedProperties" <;> rfl

theorem mapParts_snd (resolver : Resolver) : (mapParts resolver schema).2 =
    ((patternSchema? schema).or
      (((additionalAt? schema "additionalProperties").bind describedBy?).or
        ((additionalAt? schema "unevaluatedProperties").bind describedBy?))).getD
      (.detached (.object [])) := by
  rw [← filter_isObject_eq, ← filter_isObject_eq]
  unfold mapParts patternSchema?
  dsimp only
  cases (schema.member? "patternProperties").bind fun patterns => patterns.entries.head? with
  | some first => rfl
  | none =>
      rw [List.findSome?_cons, List.findSome?_cons, List.findSome?_nil]
      cases (schema.member? "additionalProperties").filter Node.isObject with
      | some node => rfl
      | none => cases (schema.member? "unevaluatedProperties").filter Node.isObject <;> rfl

end

theorem mapParts_of_schema (h : additional? schema = some (.schema node)) :
    (mapParts resolver schema).2 = node := by
  rw [additional?_eq, Option.or_eq_some_iff, Option.or_eq_some_iff] at h
  rw [mapParts_snd]
  rcases h with hpattern | ⟨hpattern, hadditional | ⟨hadditional, hunevaluated⟩⟩
  · obtain ⟨_, hpattern, ⟨⟩⟩ := Option.map_eq_some_iff.mp hpattern
    rw [hpattern]
    rfl
  · rw [Option.map_eq_none_iff.mp hpattern, hadditional]
    rfl
  · rw [Option.map_eq_none_iff.mp hpattern, hadditional, hunevaluated]
    rfl

theorem mapParts_of_none (h : additional? schema = none) :
    (mapParts resolver schema).2 = .detached (.object []) := by
  rw [additional?_eq, Option.or_eq_none_iff, Option.or_eq_none_iff] at h
  obtain ⟨hpattern, hadditional, hunevaluated⟩ := h
  rw [mapParts_snd, Option.map_eq_none_iff.mp hpattern, hadditional, hunevaluated]
  rfl

theorem mapParts_of_anything (h : additional? schema = some .anything) :
    (mapParts resolver schema).2 =
      ((schema.member? "unevaluatedProperties").filter Node.isObject).getD
        (.detached (.object [])) := by
  rw [additional?_eq, Option.or_eq_some_iff, Option.or_eq_some_iff] at h
  rw [mapParts_snd, filter_isObject_eq]
  rcases h with hpattern | ⟨hpattern, hadditional | ⟨hadditional, hunevaluated⟩⟩
  · obtain ⟨_, -, ⟨⟩⟩ := Option.map_eq_some_iff.mp hpattern
  · rw [Option.map_eq_none_iff.mp hpattern, hadditional]
    rfl
  · rw [Option.map_eq_none_iff.mp hpattern, hadditional]
    rfl

/-! ## The control of a map -/

theorem Holds.nested?_wrap {form : String} {wrap : String → List Control → Control}
    (h : Holds resolver property groupName schema form wrap) (name : String)
    (controls : List Control) : (wrap name controls).nested? = some (name, controls) := by
  cases h <;> rfl

theorem dataType_of_plain {result : Option Built} {value : Field} {interfaces : List Interface}
    (h : Builds resolver depth active property groupName result)
    (hvalue : result.getD unknownBuilt = (.plain value, interfaces)) :
    value.dataType = if (resolver.resolve property.schema).isSome
      then typeText resolver property.schema else "unknown" := by
  cases h with
  | unresolved hresolve =>
      cases hvalue
      rw [hresolve]
      rfl
  | plain hresolve _ =>
      cases hvalue
      rw [hresolve]
      rfl
  | list _ _ _ => cases hvalue
  | enclosed hholds _ | cut hholds _ | expanded hholds _ _ =>
      have hnested := congrArg (fun built : Built => built.1.nested?) hvalue
      cases (hholds.nested?_wrap _ _).symm.trans hnested
  | map _ _ _ _ => cases hvalue

theorem exists_of_map {result : Option Built} {field : Field} {value : Control} {keys : KeyRules}
    {interfaces : List Interface} (h : Builds resolver depth active property groupName result)
    (hresult : some (.map field value keys, interfaces) = result)
    (hresolve : resolver.resolve property.schema = some schema) :
    classify schema (Keywords.ofNode schema) = .map ∧
      field.dataType = recordText value.field.dataType ∧
      ∃ levels active inner, Builds resolver levels active (valueProperty resolver schema)
        (some property.valueForm) inner ∧ inner.getD unknownBuilt = (value, interfaces) := by
  cases h with
  | unresolved _ => cases hresult
  | plain _ _ => cases hresult
  | list _ _ _ => cases hresult
  | enclosed hholds _ | cut hholds _ | expanded hholds _ _ =>
      have hnested := congrArg (fun built : Built => built.1.nested?) (Option.some.inj hresult)
      cases hnested.trans (hholds.nested?_wrap _ _)
  | map hown hmap _ hvalue =>
      obtain rfl := Option.some.inj (hresolve.symm.trans hown)
      rw [mapOf, Option.some.injEq, Prod.mk.injEq, Control.map.injEq] at hresult
      obtain ⟨⟨rfl, rfl, -⟩, rfl⟩ := hresult
      exact ⟨hmap, rfl, _, _, _, hvalue, rfl⟩

theorem typeText_empty : typeText resolver (.detached (.object [])) = "unknown" := rfl

theorem resolve_empty : (resolver.resolve (.detached (.object []))).isSome := rfl

/-- What makes the two types of a map the same: the schema of the values leads somewhere, unless
its name is that of the unknown type; where any value is allowed, `unevaluatedProperties` tells
no type for them; and where nothing tells of the values, nothing else makes an object of the map. -/
def TellsAlike (resolver : Resolver) (schema : Node) : Prop :=
  match additional? schema with
  | some (.schema node) => (resolver.resolve node).isSome ∨ typeText resolver node = "unknown"
  | some .anything => ∀ node ∈ (schema.member? "unevaluatedProperties").filter Node.isObject,
      (resolver.resolve node).isSome → typeText resolver node = "unknown"
  | none => ¬schema.has "properties" ∧ ¬forbidsAdditional schema

/--
Let a property come to a map of plain values, and let its schema be bare, with a schema of the
values that is not nested as deeply as types are written out.  Then the control has the type that
the schema itself has just if both tell of the values alike.
-/
theorem map_dataType_iff {walk : Walk} {field value : Field} {keys : KeyRules}
    {interfaces : List Interface}
    (hbuilt : ((buildControl resolver depth property groupName).run walk).1 =
      some (.map field (.plain value) keys, interfaces))
    (hresolve : resolver.resolve property.schema = some schema) (hbare : Bare schema)
    (hnested : NestedBelow resolver maxDepth (mapParts resolver schema).2) :
    field.dataType = typeText resolver schema ↔ TellsAlike resolver schema := by
  obtain ⟨features, active⟩ := walk
  have hfollows : Walk.Gives active _ _ :=
    follows_buildControl resolver depth property groupName
  obtain ⟨result, added, ⟨hbuilds, -⟩, hrun⟩ := hfollows
  rw [hrun features] at hbuilt
  obtain ⟨hmap, hfield, levels, inner, built, hvalue, hplain⟩ :=
    exists_of_map hbuilds hbuilt.symm hresolve
  have hdataType := dataType_of_plain hvalue hplain
  rw [hfield, typeText_of_bare hbare hmap, TellsAlike]
  change recordText value.dataType = _ ↔ _
  rw [hdataType, valueProperty]
  cases hadditional : additional? schema with
  | none =>
      rw [mapParts_of_none hadditional, if_pos resolve_empty, typeText_empty]
      dsimp only
      split
      · rename_i heither
        refine iff_of_false (by decide) fun hneither => ?_
        rcases Bool.or_eq_true_iff.mp heither with hhas | hforbids
        · exact hneither.1 hhas
        · exact hneither.2 hforbids
      · rename_i hneither
        simpa using hneither
  | some additional =>
      cases additional with
      | schema node =>
          rw [mapParts_of_schema hadditional] at hnested ⊢
          have htype : (ofSchemaWithin resolver maxDepth node).text = typeText resolver node := by
            rw [typeText, ofSchema, ofSchemaWithin_eq_of_nestedBelow hnested (Nat.le_succ _)]
          dsimp only
          rw [recordText_inj, htype]
          by_cases hvalue : (resolver.resolve node).isSome
          · simp [hvalue]
          · simp [hvalue, eq_comm]
      | anything =>
          rw [mapParts_of_anything hadditional]
          dsimp only
          rw [recordText_inj]
          cases (schema.member? "unevaluatedProperties").filter Node.isObject with
          | none => simp [resolve_empty, typeText_empty]
          | some node => simp

def nowhere : Resolver := .new (.ofDocuments []) ""

def scores : Property := ⟨"scores", .detached (.object
  [("additionalProperties", .object [("type", .string "number")])]), true⟩

theorem map_dataType_iff_scores : ∃ field value keys interfaces,
    ((buildControl nowhere 32 scores none).run .start).1 =
      some (.map field (.plain value) keys, interfaces) ∧
    nowhere.resolve scores.schema = some scores.schema ∧ Bare scores.schema ∧
    NestedBelow nowhere maxDepth (mapParts nowhere scores.schema).2 ∧
    (field.dataType = typeText nowhere scores.schema ↔ TellsAlike nowhere scores.schema) := by
  obtain ⟨field, value, keys, interfaces, hbuilt⟩ : ∃ field value keys interfaces,
      ((buildControl nowhere 32 scores none).run .start).1 =
        some (.map field (.plain value) keys, interfaces) := ⟨_, _, _, _, rfl⟩
  have hbare : Bare scores.schema := .of_absent (by decide +kernel)
  have hnested : NestedBelow nowhere maxDepth (mapParts nowhere scores.schema).2 :=
    .of_empty rfl
  exact ⟨field, value, keys, interfaces, hbuilt, rfl, hbare, hnested,
    map_dataType_iff hbuilt rfl hbare hnested⟩

def notes : Property := ⟨"notes", .detached (.object [("additionalProperties", .bool true),
  ("unevaluatedProperties", .object [("type", .string "string")])]), true⟩

def guests : Property := ⟨"guests", .detached (.object
  [("additionalProperties", .object [("$ref", .string "#/Guest")])]), true⟩

/-- The two types of a map may differ: where any value is allowed although unevaluated ones have a
type, and where the schema of the values leads nowhere. -/
theorem exists_told_apart :
    (∃ field value keys interfaces,
      ((buildControl nowhere 32 notes none).run .start).1 =
        some (.map field (.plain value) keys, interfaces) ∧
      nowhere.resolve notes.schema = some notes.schema ∧ Bare notes.schema ∧
      NestedBelow nowhere maxDepth (mapParts nowhere notes.schema).2 ∧
      field.dataType = "Record<string, string>" ∧
      typeText nowhere notes.schema = "Record<string, unknown>") ∧
    ∃ field value keys interfaces,
      ((buildControl nowhere 32 guests none).run .start).1 =
        some (.map field (.plain value) keys, interfaces) ∧
      nowhere.resolve guests.schema = some guests.schema ∧ Bare guests.schema ∧
      NestedBelow nowhere maxDepth (mapParts nowhere guests.schema).2 ∧
      field.dataType = "Record<string, unknown>" ∧
      typeText nowhere guests.schema = "Record<string, Guest>" :=
  ⟨⟨_, _, _, _, rfl, rfl, .of_absent (by decide +kernel), .of_empty rfl, by decide +kernel,
      by decide +kernel⟩,
    _, _, _, _, rfl, rfl, .of_absent (by decide +kernel), .of_empty rfl, by decide +kernel,
    by decide +kernel⟩

end SpecForm.Form
