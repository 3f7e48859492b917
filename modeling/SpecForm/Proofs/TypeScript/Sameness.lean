import Mathlib.Data.List.Forall2
import Mathlib.Logic.Relation
import SpecForm.TypeScript.Type

/-!
# Types that are the same

Two types are the same if they are built in the same way from literals that are the same.  That
is transitive, and a type is the same as itself unless there is a NaN in it: numbers are compared
as doubles, of which no NaN is equal to any and the two zeros are equal.
-/

namespace SpecForm.TypeScript

/-! ## Numbers -/

open Float.Model (UnpackedFloat)
open Float.Model.UnpackedFloat (Sign)

/-- What a double is compared by: nothing if it is a NaN, the sign of an infinity, and what a finite
number is made of, where the sign of a zero does not count. -/
def comparand? (value : Float) : Option (Sign ⊕ Option (Sign × Nat × Int)) :=
  match value.toModel.unpack with
  | .notANumber => none
  | .infinity sign => some (.inl sign)
  | .zero _ => some (.inr none)
  | .finite sign mantissa exponent _ => some (.inr (some (sign, mantissa, exponent)))

theorem compare_sign_eq_iff (sign other : Sign) : compare sign other = .eq ↔ sign = other := by
  cases sign <;> cases other <;> simp [compare]

theorem compare_finite_eq_iff (exponent exponent' : Int) (mantissa mantissa' : Nat) :
    (compare exponent exponent').then (compare mantissa mantissa') = .eq ↔
      mantissa = mantissa' ∧ exponent = exponent' := by
  rw [Ordering.then_eq_eq, Std.compare_eq_iff_eq, Std.compare_eq_iff_eq, and_comm]

theorem beq_eq_true_iff {a b : Float} :
    (a == b) = true ↔ (comparand? a).isSome ∧ comparand? a = comparand? b := by
  have hcompare : (a == b) = (a.toModel.unpack.compare b.toModel.unpack == some .eq) := rfl
  rw [hcompare, comparand?, comparand?]
  -- The comparison looks at the sign first, unless the number is a zero.
  rcases a.toModel.unpack with (_ | _) | _ | _ | ⟨_ | _, mantissa, exponent, _⟩ <;>
    rcases b.toModel.unpack with (_ | _) | _ | _ | ⟨_ | _, mantissa', exponent', _⟩ <;>
      dsimp only [UnpackedFloat.compare] <;>
        simp [-Ordering.then_eq_eq, compare_sign_eq_iff, compare_finite_eq_iff]

theorem isSome_comparand? (value : Float) : (comparand? value).isSome = !value.isNaN := by
  have hnan : value.isNaN = value.toModel.unpack.isNaN := rfl
  rw [hnan, comparand?]
  cases value.toModel.unpack <;> rfl

namespace Literal

theorem same_trans {a b c : Literal} (hab : a.same b) (hbc : b.same c) : a.same c := by
  cases a <;> cases b <;> simp only [same, Bool.false_eq_true] at hab <;>
    cases c <;> simp only [same, Bool.false_eq_true] at hbc
  all_goals simp_all only [same, decide_eq_true_eq, beq_eq_true_iff]
  all_goals trivial

theorem same_self {value : Literal} (h : ∀ number, value = .number number → ¬number.isNaN) :
    value.same value := by
  cases value with
  | string | int | bool => simp [same]
  | number number =>
      rw [same, beq_eq_true_iff, isSome_comparand?]
      exact ⟨by simpa using h number rfl, rfl⟩

end Literal

namespace TypeExpr

/-! ## Types inside a type -/

def inside : TypeExpr → List TypeExpr
  | .array item => [item]
  | .union members | .intersection members => members
  | .object members => members.map fun member => member.2.2
  | .record key value => [key, value]
  | .primitive _ | .literal _ | .named _ => []

def Within (part type : TypeExpr) : Prop :=
  Relation.ReflTransGen (fun outer inner => inner ∈ outer.inside) type part

theorem sizeOf_lt_of_mem_inside {part type : TypeExpr} (h : part ∈ type.inside) :
    sizeOf part < sizeOf type := by
  cases type with
  | primitive | literal | named => cases h
  | array item =>
      rw [List.mem_singleton.mp h, array.sizeOf_spec]
      omega
  | union members | intersection members =>
      have hmember : sizeOf part < sizeOf members := List.sizeOf_lt_of_mem h
      simp only [union.sizeOf_spec, intersection.sizeOf_spec]
      omega
  | object members =>
      obtain ⟨⟨name, optional, own⟩, hmember, rfl⟩ := List.mem_map.mp h
      have hsize := List.sizeOf_lt_of_mem hmember
      simp only [Prod.mk.sizeOf_spec] at hsize
      simp only [object.sizeOf_spec]
      omega
  | record key value =>
      simp only [inside, List.mem_cons, List.not_mem_nil, or_false] at h
      rw [record.sizeOf_spec]
      rcases h with rfl | rfl <;> omega

theorem induction_inside {motive : TypeExpr → Prop}
    (step : ∀ type, (∀ part ∈ type.inside, motive part) → motive type) (type : TypeExpr) :
    motive type :=
  step type fun part _ => induction_inside step part
termination_by sizeOf type
decreasing_by exact sizeOf_lt_of_mem_inside ‹_›

/-! ## Lists of types -/

def SameMember (member other : String × Bool × TypeExpr) : Prop :=
  member.1 = other.1 ∧ member.2.1 = other.2.1 ∧ same member.2.2 other.2.2

theorem sameAll_iff {as bs : List TypeExpr} :
    sameAll as bs ↔ List.Forall₂ (fun a b => same a b) as bs := by
  induction as generalizing bs with
  | nil => cases bs <;> simp [sameAll]
  | cons a as ih => cases bs <;> simp [sameAll, ih]

theorem sameMembers_iff {as bs : List (String × Bool × TypeExpr)} :
    sameMembers as bs ↔ List.Forall₂ SameMember as bs := by
  induction as generalizing bs with
  | nil => cases bs <;> simp [sameMembers]
  | cons a as ih => cases bs <;> simp [sameMembers, SameMember, ih, and_assoc]

section

variable {α : Type} {relation : α → α → Prop} {as bs cs : List α}

theorem forall₂_trans_of_mem (htrans : ∀ a ∈ as, ∀ b c, relation a b → relation b c → relation a c)
    (hab : List.Forall₂ relation as bs) (hbc : List.Forall₂ relation bs cs) :
    List.Forall₂ relation as cs := by
  induction hab generalizing cs with
  | nil => exact hbc
  | cons hfirst _ ih =>
      cases hbc with
      | cons hsecond hlater =>
          obtain ⟨hown, hrest⟩ := List.forall_mem_cons.mp htrans
          exact .cons (hown _ _ hfirst hsecond) (ih hrest hlater)

end

/-! ## Sameness -/

theorem same_trans {a b c : TypeExpr} (hab : same a b) (hbc : same b c) : same a c := by
  induction a using induction_inside generalizing b c with
  | step a ih =>
      cases a <;> cases b <;> simp only [same, Bool.false_eq_true] at hab <;>
        cases c <;> simp only [same, Bool.false_eq_true] at hbc <;> rw [same]
      case primitive | named => simp_all
      case literal => exact Literal.same_trans hab hbc
      case array => exact ih _ List.mem_cons_self hab hbc
      case union | intersection =>
        exact sameAll_iff.mpr (forall₂_trans_of_mem (fun _ hmem _ _ => ih _ hmem)
          (sameAll_iff.mp hab) (sameAll_iff.mp hbc))
      case object =>
        refine sameMembers_iff.mpr (forall₂_trans_of_mem (fun a hmem b c hsame hsame' => ?_)
          (sameMembers_iff.mp hab) (sameMembers_iff.mp hbc))
        exact ⟨hsame.1.trans hsame'.1, hsame.2.1.trans hsame'.2.1,
          ih _ (List.mem_map_of_mem hmem) hsame.2.2 hsame'.2.2⟩
      case record =>
        rw [Bool.and_eq_true] at hab hbc ⊢
        exact ⟨ih _ (by simp [inside]) hab.1 hbc.1, ih _ (by simp [inside]) hab.2 hbc.2⟩

def NoNaN (type : TypeExpr) : Prop :=
  ∀ number, Within (.literal (.number number)) type → ¬number.isNaN

theorem NoNaN.of_mem_inside {part type : TypeExpr} (h : type.NoNaN) (hpart : part ∈ type.inside) :
    part.NoNaN :=
  fun number hwithin => h number (.head hpart hwithin)

theorem NoNaN.of_inside {type : TypeExpr} (hown : ∀ value, type ≠ .literal value)
    (h : ∀ part ∈ type.inside, part.NoNaN) : type.NoNaN := by
  intro number hwithin
  rcases hwithin.cases_head with heq | ⟨part, hpart, hrest⟩
  · exact absurd heq (hown _)
  · exact h part hpart number hrest

theorem noNaN_primitive (name : Primitive) : (primitive name).NoNaN := .of_inside nofun nofun

theorem noNaN_named (name : String) : (named name).NoNaN := .of_inside nofun nofun

theorem same_self {type : TypeExpr} (h : type.NoNaN) : same type type := by
  induction type using induction_inside with
  | step type ih =>
      have hpart : ∀ part ∈ type.inside, same part part :=
        fun part hmem => ih part hmem (h.of_mem_inside hmem)
      cases type <;> rw [same]
      case primitive | named => simp
      case literal value =>
        refine Literal.same_self fun number hnumber => h number ?_
        rw [hnumber]
        exact .refl
      case array => exact hpart _ List.mem_cons_self
      case union | intersection => exact sameAll_iff.mpr (List.forall₂_same.mpr hpart)
      case object =>
        refine sameMembers_iff.mpr (List.forall₂_same.mpr fun member hmem => ⟨rfl, rfl, ?_⟩)
        exact hpart _ (List.mem_map_of_mem hmem)
      case record =>
        rw [Bool.and_eq_true]
        exact ⟨hpart _ (by simp [inside]), hpart _ (by simp [inside])⟩

end TypeExpr

end SpecForm.TypeScript
