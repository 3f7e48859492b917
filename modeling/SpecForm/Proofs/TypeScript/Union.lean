import Mathlib.Data.List.Induction
import SpecForm.Proofs.TypeScript.Sameness

/-!
# Unions of types

The members of a union are gathered one after the other, and one that is the same as a member that
is there already is left out.  Gathering what has been gathered before therefore adds nothing, and
so a union of unions is the union of all their members.
-/

namespace SpecForm.TypeScript.TypeExpr

/-! ## Gathering -/

def Apart (types : List TypeExpr) : Prop := types.Pairwise fun type later => ¬same type later

/-- The type is there, or another one that is the same.  (A type with a NaN in it may be there and
still not be the same as any.) -/
def Held (types : List TypeExpr) (type : TypeExpr) : Prop :=
  ∃ held ∈ types, held = type ∨ same held type

def distinct (types : List TypeExpr) : List TypeExpr := types.foldl addNew []

section

variable {types later : List TypeExpr} {type other : TypeExpr}

theorem Held.mono (h : Held types type) (hsubset : types ⊆ later) : Held later type := by
  obtain ⟨held, hmem, hheld⟩ := h
  exact ⟨held, hsubset hmem, hheld⟩

theorem Held.any_same (h : Held types type) (hsame : same type other) :
    types.any (same · other) := by
  obtain ⟨held, hmem, rfl | hheld⟩ := h
  · exact List.any_eq_true.mpr ⟨held, hmem, hsame⟩
  · exact List.any_eq_true.mpr ⟨held, hmem, same_trans hheld hsame⟩

theorem addNew_of_any (h : types.any (same · type)) : addNew types type = types := by
  rw [addNew, if_pos h]

theorem addNew_of_not_any (h : ¬types.any (same · type)) : addNew types type = types ++ [type] := by
  rw [addNew, if_neg h]

theorem subset_addNew : types ⊆ addNew types type := by
  unfold addNew
  split
  · exact List.Subset.refl types
  · exact List.subset_append_left types [type]

theorem held_addNew : Held (addNew types type) type := by
  by_cases hany : types.any (same · type)
  · obtain ⟨held, hmem, hsame⟩ := List.any_eq_true.mp hany
    exact ⟨held, subset_addNew hmem, .inr hsame⟩
  · rw [addNew_of_not_any hany]
    exact ⟨type, by simp, .inl rfl⟩

theorem mem_of_mem_addNew (h : other ∈ addNew types type) : other ∈ types ∨ other = type := by
  unfold addNew at h
  split at h
  · exact .inl h
  · simpa using h

theorem Apart.addNew (h : Apart types) : Apart (addNew types type) := by
  by_cases hany : types.any (same · type)
  · rwa [addNew_of_any hany]
  · rw [addNew_of_not_any hany]
    refine List.pairwise_append.mpr ⟨h, List.pairwise_singleton .., fun held hmem => ?_⟩
    refine List.forall_mem_singleton.mpr fun hsame => ?_
    exact hany (List.any_eq_true.mpr ⟨held, hmem, hsame⟩)

theorem subset_foldl_addNew : types ⊆ later.foldl addNew types := by
  induction later generalizing types with
  | nil => exact List.Subset.refl types
  | cons type later ih => exact List.Subset.trans subset_addNew ih

theorem held_foldl_addNew (h : type ∈ later) : Held (later.foldl addNew types) type := by
  induction later generalizing types with
  | nil => cases h
  | cons first later ih =>
      rcases List.mem_cons.mp h with rfl | hlater
      · exact held_addNew.mono subset_foldl_addNew
      · exact ih hlater

theorem mem_of_mem_foldl_addNew (h : type ∈ later.foldl addNew types) :
    type ∈ types ∨ type ∈ later := by
  induction later generalizing types with
  | nil => exact .inl h
  | cons first later ih =>
      rcases ih h with hadded | hlater
      · rcases mem_of_mem_addNew hadded with htypes | rfl
        · exact .inl htypes
        · exact .inr List.mem_cons_self
      · exact .inr (List.mem_cons_of_mem first hlater)

theorem Apart.foldl_addNew (h : Apart types) : Apart (later.foldl TypeExpr.addNew types) := by
  induction later generalizing types with
  | nil => exact h
  | cons first later ih => exact ih h.addNew

theorem foldl_addNew_of_apart (h : Apart (types ++ later)) :
    later.foldl addNew types = types ++ later := by
  induction later generalizing types with
  | nil => rw [List.append_nil, List.foldl_nil]
  | cons first later ih =>
      have hnew : ¬types.any (same · first) := fun hany => by
        obtain ⟨held, hmem, hsame⟩ := List.any_eq_true.mp hany
        exact (List.pairwise_append.mp h).2.2 held hmem first List.mem_cons_self hsame
      rw [List.append_cons] at h ⊢
      rw [List.foldl_cons, addNew_of_not_any hnew, ih h]

/-- What is left out of the later types is left out anyway: the type that it is the same as comes
before it. -/
theorem foldl_addNew_distinct : (distinct later).foldl addNew types = later.foldl addNew types := by
  induction later using List.reverseRecOn with
  | nil => rfl
  | append_singleton later type ih =>
      rw [List.foldl_concat, ← ih, distinct, List.foldl_concat, ← distinct]
      by_cases hany : (distinct later).any (same · type)
      · obtain ⟨held, hmem, hsame⟩ := List.any_eq_true.mp hany
        have hheld : Held ((distinct later).foldl addNew types) held := held_foldl_addNew hmem
        rw [addNew_of_any hany, addNew_of_any (hheld.any_same hsame)]
      · rw [addNew_of_not_any hany, List.foldl_concat]

theorem apart_distinct : Apart (distinct types) := Apart.foldl_addNew List.Pairwise.nil

theorem mem_of_mem_distinct (h : type ∈ distinct types) : type ∈ types :=
  (mem_of_mem_foldl_addNew h).resolve_left List.not_mem_nil

theorem held_distinct (h : type ∈ types) : Held (distinct types) type := held_foldl_addNew h

theorem distinct_of_apart (h : Apart types) : distinct types = types := foldl_addNew_of_apart h

theorem distinct_ne_nil (h : types ≠ []) : distinct types ≠ [] := by
  obtain ⟨type, hmem⟩ := List.exists_mem_of_ne_nil types h
  obtain ⟨held, hheld, -⟩ := held_distinct hmem
  exact List.ne_nil_of_mem hheld

theorem distinct_append_distinct :
    distinct (distinct types ++ distinct later) = distinct (types ++ later) := by
  rw [distinct, List.foldl_append, foldl_addNew_distinct, foldl_addNew_distinct,
    ← List.foldl_append, ← distinct]

end

/-! ## Unions -/

def ofMembers : List TypeExpr → TypeExpr
  | [] => unknown
  | [type] => type
  | members => .union members

structure ProperMembers (members : List TypeExpr) : Prop where
  two_le : 2 ≤ members.length
  apart : Apart members
  not_isUnion : ∀ member ∈ members, ¬member.isUnion

def ProperUnion (type : TypeExpr) : Prop := ∀ members, type = .union members → ProperMembers members

section

variable {types others members : List TypeExpr} {type : TypeExpr}

theorem unionOf_eq : unionOf types = ofMembers (distinct (types.flatMap unionMembers)) := by
  rw [unionOf, ← distinct]
  unfold ofMembers
  rfl

theorem unionMembers_ofMembers (hne : members ≠ [])
    (hunion : ∀ member ∈ members, ¬member.isUnion) :
    (ofMembers members).unionMembers = members := by
  match members, hne with
  | [member], _ =>
      have hmember := hunion member List.mem_cons_self
      cases member <;> first | rfl | exact absurd rfl hmember
  | _ :: _ :: _, _ => rfl

theorem ProperUnion.unionMembers_ne_nil (h : type.ProperUnion) : type.unionMembers ≠ [] := by
  cases type with
  | union members =>
      exact List.ne_nil_of_length_pos (Nat.lt_of_lt_of_le Nat.two_pos (h _ rfl).two_le)
  | _ => simp [unionMembers]

theorem ProperUnion.not_isUnion (h : type.ProperUnion) :
    ∀ member ∈ type.unionMembers, ¬member.isUnion := by
  cases type with
  | union members => exact (h _ rfl).not_isUnion
  | _ => simp [unionMembers, isUnion]

theorem flatMap_unionMembers_ne_nil (hne : types ≠ []) (h : ∀ type ∈ types, type.ProperUnion) :
    types.flatMap unionMembers ≠ [] := by
  obtain ⟨type, hmem⟩ := List.exists_mem_of_ne_nil types hne
  obtain ⟨member, hmember⟩ := List.exists_mem_of_ne_nil _ (h type hmem).unionMembers_ne_nil
  exact List.ne_nil_of_mem (List.mem_flatMap.mpr ⟨type, hmem, hmember⟩)

theorem not_isUnion_of_mem_distinct (h : ∀ type ∈ types, type.ProperUnion) :
    ∀ member ∈ distinct (types.flatMap unionMembers), ¬member.isUnion := by
  intro member hmember
  obtain ⟨type, hmem, hinside⟩ := List.mem_flatMap.mp (mem_of_mem_distinct hmember)
  exact (h type hmem).not_isUnion member hinside

theorem unionMembers_unionOf (hne : types ≠ []) (h : ∀ type ∈ types, type.ProperUnion) :
    (unionOf types).unionMembers = distinct (types.flatMap unionMembers) := by
  rw [unionOf_eq]
  exact unionMembers_ofMembers (distinct_ne_nil (flatMap_unionMembers_ne_nil hne h))
    (not_isUnion_of_mem_distinct h)

theorem properUnion_ofMembers (hapart : Apart members)
    (hunion : ∀ member ∈ members, ¬member.isUnion) : (ofMembers members).ProperUnion := by
  intro inner hinner
  match members with
  | [] => cases hinner
  | [member] =>
      have hmember : member = .union inner := hinner
      exact absurd (by rw [hmember, isUnion]) (hunion member List.mem_cons_self)
  | _ :: _ :: _ =>
      cases hinner
      exact ⟨by simp, hapart, hunion⟩

theorem properUnion_unionOf (h : ∀ type ∈ types, type.ProperUnion) :
    (unionOf types).ProperUnion := by
  rw [unionOf_eq]
  exact properUnion_ofMembers apart_distinct (not_isUnion_of_mem_distinct h)

theorem unionOf_unionOf (hne : types ≠ []) (hne' : others ≠ [])
    (h : ∀ type ∈ types ++ others, type.ProperUnion) :
    unionOf [unionOf types, unionOf others] = unionOf (types ++ others) := by
  obtain ⟨htypes, hothers⟩ := List.forall_mem_append.mp h
  rw [unionOf_eq, @unionOf_eq (types ++ others)]
  congr 1
  calc distinct ([unionOf types, unionOf others].flatMap unionMembers)
      = distinct ((unionOf types).unionMembers ++ (unionOf others).unionMembers) := by simp
    _ = distinct (distinct (types.flatMap unionMembers) ++
          distinct (others.flatMap unionMembers)) := by
        rw [unionMembers_unionOf hne htypes, unionMembers_unionOf hne' hothers]
    _ = distinct ((types ++ others).flatMap unionMembers) := by
        rw [distinct_append_distinct, List.flatMap_append]

theorem held_unionOf_of_perm (hperm : types.Perm others) (hne : types ≠ [])
    (h : ∀ type ∈ types, type.ProperUnion) (hmem : type ∈ (unionOf types).unionMembers) :
    Held (unionOf others).unionMembers type := by
  have hne' : others ≠ [] := fun hnil => hne (hnil ▸ hperm).eq_nil
  rw [unionMembers_unionOf hne h] at hmem
  rw [unionMembers_unionOf hne' fun type hmem => h type (hperm.mem_iff.mpr hmem)]
  exact held_distinct ((hperm.flatMap_right _).mem_iff.mp (mem_of_mem_distinct hmem))

end

/-! ## Null -/

theorem eq_null_of_same_null {type : TypeExpr} (h : same type null) : type = null := by
  cases type with
  | primitive name =>
      rw [null, same, decide_eq_true_eq] at h
      rw [null, h]
  | _ => simp [null, same] at h

theorem orNull_ofMembers {members : List TypeExpr} (hapart : Apart members)
    (hnull : null ∈ members) : (ofMembers members).orNull = ofMembers members := by
  match members with
  | [] => cases hnull
  | [member] =>
      rw [← List.mem_singleton.mp hnull]
      rfl
  | first :: second :: rest =>
      have hany : (first :: second :: rest).any (same · null) :=
        List.any_eq_true.mpr ⟨null, hnull, by simp [null, same]⟩
      have hadded : distinct ((first :: second :: rest) ++ [null]) = first :: second :: rest := by
        rw [distinct, List.foldl_concat, ← distinct, distinct_of_apart hapart, addNew_of_any hany]
      rw [orNull, unionOf_eq]
      exact congrArg ofMembers hadded

theorem orNull_orNull (type : TypeExpr) : type.orNull.orNull = type.orNull := by
  have hmem : null ∈ [type, null].flatMap unionMembers := by simp [unionMembers, null]
  obtain ⟨held, hheld, hsame⟩ := held_distinct hmem
  obtain rfl : held = null := hsame.elim id eq_null_of_same_null
  have htype : type.orNull = ofMembers (distinct ([type, null].flatMap unionMembers)) := unionOf_eq
  rw [htype]
  exact orNull_ofMembers apart_distinct hheld

theorem NoNaN.of_mem_unionMembers {type member : TypeExpr} (h : type.NoNaN)
    (hmember : member ∈ type.unionMembers) : member.NoNaN := by
  cases type with
  | union members => exact h.of_mem_inside hmember
  | _ => exact List.mem_singleton.mp hmember ▸ h

theorem NoNaN.ofMembers {members : List TypeExpr} (h : ∀ member ∈ members, member.NoNaN) :
    (ofMembers members).NoNaN := by
  match members with
  | [] => exact noNaN_primitive .unknown
  | [member] => exact h member List.mem_cons_self
  | _ :: _ :: _ => exact .of_inside nofun h

theorem NoNaN.unionOf {types : List TypeExpr} (h : ∀ type ∈ types, type.NoNaN) :
    (unionOf types).NoNaN := by
  rw [unionOf_eq]
  refine NoNaN.ofMembers fun member hmember => ?_
  obtain ⟨type, hmem, hinside⟩ := List.mem_flatMap.mp (mem_of_mem_distinct hmember)
  exact (h type hmem).of_mem_unionMembers hinside

/-! ## The laws of unions -/

def Alike (types others : List TypeExpr) : Prop :=
  (∀ type ∈ types, Held others type) ∧ ∀ type ∈ others, Held types type

/-- A union of unions is the union of what they were made from; the order of the types makes no
difference to which members there are; and a type admits `null` once and for all. -/
theorem unionOf_laws {types others : List TypeExpr} (hne : types ≠ []) (hne' : others ≠ [])
    (h : ∀ type ∈ types ++ others, type.ProperUnion) :
    unionOf [unionOf types, unionOf others] = unionOf (types ++ others) ∧
      (∀ reordered, reordered.Perm types →
        Alike (unionOf reordered).unionMembers (unionOf types).unionMembers) ∧
      ∀ type : TypeExpr, type.orNull.orNull = type.orNull ∧
        (type.NoNaN → same type.orNull.orNull type.orNull) := by
  refine ⟨unionOf_unionOf hne hne' h, fun reordered hperm => ⟨?_, ?_⟩, fun type => ?_⟩
  · have hproper := (List.forall_mem_append.mp h).1
    exact fun type hmem => held_unionOf_of_perm hperm (fun hnil => hne (hnil ▸ hperm).symm.eq_nil)
      (fun type hmem => hproper type (hperm.mem_iff.mp hmem)) hmem
  · exact fun type hmem => held_unionOf_of_perm hperm.symm hne (List.forall_mem_append.mp h).1 hmem
  · refine ⟨orNull_orNull type, fun hnan => ?_⟩
    rw [orNull_orNull]
    refine same_self (NoNaN.unionOf fun member hmem => ?_)
    rcases List.mem_pair.mp hmem with rfl | rfl
    · exact hnan
    · exact noNaN_primitive .null

theorem unionOf_laws_of_nullable_pet :
    unionOf [unionOf [.union [.named "Pet", null], .primitive .string],
        unionOf [null, .named "Cat"]] =
      .union [.named "Pet", null, .primitive .string, .named "Cat"] ∧
    Alike (unionOf [.primitive .string, .union [.named "Pet", null]]).unionMembers
      (unionOf [.union [.named "Pet", null], .primitive .string]).unionMembers ∧
    same (named "Pet").orNull.orNull (named "Pet").orNull := by
  have hproper : ∀ type ∈ [.union [.named "Pet", null], .primitive .string] ++
      [null, .named "Cat"], type.ProperUnion := by
    intro type hmem members hmembers
    subst hmembers
    obtain rfl : members = [.named "Pet", null] := by simpa [null] using hmem
    exact ⟨by simp, by simp [Apart, same, null], by simp [isUnion, null]⟩
  obtain ⟨hunion, hperm, hnull⟩ := unionOf_laws (by simp) (by simp) hproper
  refine ⟨hunion.trans ?_, hperm _ (.swap ..), (hnull (.named "Pet")).2 (noNaN_named "Pet")⟩
  simp [unionOf, unionMembers, addNew, same, null]

end SpecForm.TypeScript.TypeExpr
