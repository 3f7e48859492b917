import SpecForm.Proofs.TypeScript.Nesting
import SpecForm.Proofs.TypeScript.Union

/-!
# Normal form

Unions and intersections are only built from types that are in normal form already, so that taking
the unions among the members of a union apart once is enough: there are none within those.
-/

namespace SpecForm.TypeScript

open Schema

namespace TypeExpr

/-! ## Types in normal form -/

/-- What the type requires of its own members: a union has proper ones, and an intersection at
least two. -/
def Proper : TypeExpr → Prop
  | .union members => ProperMembers members
  | .intersection members => 2 ≤ members.length
  | _ => True

def Normal (type : TypeExpr) : Prop := ∀ part, Within part type → Proper part

theorem normal_iff {type : TypeExpr} :
    Normal type ↔ Proper type ∧ ∀ part ∈ type.inside, Normal part := by
  constructor
  · exact fun h => ⟨h type .refl, fun part hpart inner hwithin => h inner (.head hpart hwithin)⟩
  · rintro ⟨hown, hparts⟩ inner hwithin
    rcases hwithin.cases_head with rfl | ⟨part, hpart, hrest⟩
    · exact hown
    · exact hparts part hpart inner hrest

section

variable {types : List TypeExpr} {type value : TypeExpr}

theorem Normal.properUnion (h : Normal type) : ProperUnion type := by
  rintro members rfl
  exact (normal_iff.mp h).1

theorem Normal.of_mem_unionMembers (h : Normal type) :
    ∀ member ∈ type.unionMembers, Normal member := by
  cases type with
  | union members => exact (normal_iff.mp h).2
  | _ => exact fun member hmember => List.mem_singleton.mp hmember ▸ h

@[simp] theorem normal_primitive (name : Primitive) : Normal (.primitive name) :=
  normal_iff.mpr ⟨trivial, nofun⟩

@[simp] theorem normal_literal (value : Literal) : Normal (.literal value) :=
  normal_iff.mpr ⟨trivial, nofun⟩

@[simp] theorem normal_named (name : String) : Normal (.named name) :=
  normal_iff.mpr ⟨trivial, nofun⟩

@[simp] theorem normal_unknown : Normal unknown := normal_primitive .unknown

@[simp] theorem normal_null : Normal null := normal_primitive .null

theorem Normal.array (h : Normal type) : Normal (.array type) :=
  normal_iff.mpr ⟨trivial, List.forall_mem_singleton.mpr h⟩

theorem Normal.stringRecord (h : Normal value) : Normal (stringRecord value) := by
  refine normal_iff.mpr ⟨trivial, fun part hpart => ?_⟩
  rcases List.mem_pair.mp hpart with rfl | rfl
  · exact normal_primitive .string
  · exact h

theorem normal_object {members : List (String × Bool × TypeExpr)}
    (h : ∀ member ∈ members, Normal member.2.2) : Normal (.object members) :=
  normal_iff.mpr ⟨trivial, List.forall_mem_map.mpr h⟩

/-! ## Unions and intersections -/

theorem normal_ofMembers (hmembers : ∀ member ∈ types, Normal member)
    (hproper : ProperUnion (ofMembers types)) : Normal (ofMembers types) := by
  match types with
  | [] => exact normal_unknown
  | [type] => exact hmembers type List.mem_cons_self
  | _ :: _ :: _ => exact normal_iff.mpr ⟨hproper _ rfl, hmembers⟩

theorem normal_unionOf (h : ∀ type ∈ types, Normal type) : Normal (unionOf types) := by
  have hproper : ProperUnion (unionOf types) :=
    properUnion_unionOf fun type hmem => (h type hmem).properUnion
  rw [unionOf_eq] at hproper ⊢
  refine normal_ofMembers (fun member hmember => ?_) hproper
  obtain ⟨type, hmem, hinside⟩ := List.mem_flatMap.mp (mem_of_mem_distinct hmember)
  exact (h type hmem).of_mem_unionMembers member hinside

theorem normal_intersectionOf (h : ∀ type ∈ types, Normal type) :
    Normal (intersectionOf types) := by
  match types with
  | [] => exact normal_unknown
  | [type] => exact h type List.mem_cons_self
  | _ :: _ :: rest => exact normal_iff.mpr ⟨Nat.le_add_left 2 rest.length, h⟩

theorem Normal.orNull (h : Normal type) : Normal type.orNull :=
  normal_unionOf (by simp [h])

@[simp] theorem normal_ofValue (value : Json) : Normal (ofValue value) := by
  unfold ofValue
  split
  case h_3 => split <;> exact normal_literal _
  all_goals simp

end

end TypeExpr

open TypeExpr

/-! ## Types of schemas -/

theorem normal_objectOf {named : Option (List (String × Bool × TypeExpr))}
    {others : Option TypeExpr} {forbids : Bool}
    (hnamed : ∀ members ∈ named, ∀ member ∈ members, Normal member.2.2)
    (hothers : ∀ other ∈ others, Normal other) : Normal (objectOf named others forbids) := by
  unfold objectOf
  split
  · refine normal_iff.mpr ⟨Nat.le_refl 2, fun part hpart => ?_⟩
    rcases List.mem_pair.mp hpart with rfl | rfl
    · exact normal_object (hnamed _ rfl)
    · exact (hothers _ rfl).stringRecord
  · exact (hothers _ rfl).stringRecord
  · exact normal_object (hnamed _ rfl)
  · split
    · exact normal_object nofun
    · exact normal_unknown.stringRecord

section

variable {convert : Node → TypeExpr} {schema : Node}

theorem normal_asObject (h : ∀ node, Normal (convert node)) : Normal (asObject convert schema) := by
  refine normal_objectOf (fun members hmembers => ?_) fun other hother => ?_
  · obtain ⟨properties, -, rfl⟩ := Option.map_eq_some_iff.mp hmembers
    exact List.forall_mem_map.mpr fun entry _ => h entry.2
  · obtain ⟨additional, -, rfl⟩ := Option.map_eq_some_iff.mp hother
    cases additional with
    | schema node => exact h node
    | anything => exact normal_unknown

theorem normal_asArray (h : ∀ node, Normal (convert node)) : Normal (asArray convert schema) := by
  refine Normal.array ?_
  cases schema.member? "items" with
  | none => exact normal_unknown
  | some items => exact h items

theorem normal_ofTypeName {keywords : Keywords} {array object : Unit → TypeExpr} {name : String}
    (harray : Normal (array ())) (hobject : Normal (object ())) :
    Normal (ofTypeName keywords array object name) := by
  unfold ofTypeName
  split <;> simp only [normal_primitive, normal_unknown, harray, hobject]

theorem normal_ofDeclared {keywords : Keywords} {array object : Unit → TypeExpr}
    (harray : Normal (array ())) (hobject : Normal (object ())) :
    Normal (ofDeclared schema keywords array object) := by
  unfold ofDeclared
  split
  · split_ifs
    · exact normal_null
    · exact hobject
    · exact harray
    · exact normal_unknown
  · exact normal_unionOf (List.forall_mem_map.mpr fun _ _ => normal_ofTypeName harray hobject)

theorem normal_asWritten (h : ∀ node, Normal (convert node)) :
    Normal (asWritten convert schema) := by
  unfold asWritten
  split
  · exact normal_ofValue _
  · exact normal_unionOf (List.forall_mem_map.mpr fun value _ => normal_ofValue value)
  · exact normal_intersectionOf (List.forall_mem_map.mpr fun part _ => h part)
  · exact normal_unionOf (List.forall_mem_map.mpr fun branch _ => h branch)
  · exact normal_ofDeclared (normal_asArray h) (normal_asObject h)

end

theorem normal_ofSchemaWithin (resolver : Resolver) (depth : Nat) (schema : Node) :
    Normal (ofSchemaWithin resolver depth schema) := by
  induction depth generalizing schema with
  | zero => exact normal_unknown
  | succ depth ih =>
      rw [ofSchemaWithin_succ]
      split
      · exact normal_unknown
      · split
        · exact normal_named _
        · cases resolver.resolve schema with
          | none => exact normal_unknown
          | some target => exact ih target
        · dsimp only
          split
          · exact (normal_asWritten ih).orNull
          · exact normal_asWritten ih

/-- In the type of a schema every union, however deep, has at least two members, no two of them
the same and none a union, and every intersection has at least two members. -/
theorem ofSchema_normal (resolver : Resolver) (schema : Node) :
    (ofSchema resolver schema).Normal :=
  normal_ofSchemaWithin resolver (maxDepth + 1) schema

end SpecForm.TypeScript
