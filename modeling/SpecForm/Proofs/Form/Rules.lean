import Mathlib.Data.Real.Basic
import SpecForm.Form.Encoding

/-!
# Rules of a schema

The bounds of a schema are on numbers, and so are four kinds of its rules: a number keeps to the
bounds just if it keeps to the rules, in whichever of the two ways a schema writes a strict bound.
The rules stand in the order of their kinds, with no kind twice.
-/

namespace SpecForm.Schema

/-! ## Numbers and bounds -/

def rational? (bound : Float) : Option ℚ :=
  match bound.toModel.unpack with
  | .zero _ => some 0
  | .finite sign mantissa exponent _ => some (sign.apply mantissa * 2 ^ exponent)
  | .infinity _ | .notANumber => none

theorem isSome_rational? (bound : Float) : (rational? bound).isSome = bound.isFinite := by
  have hfinite : bound.isFinite = bound.toModel.unpack.isFinite := rfl
  rw [hfinite, rational?]
  cases bound.toModel.unpack <;> rfl

variable {x : ℝ} {bound : Float}

def AtLeast (x : ℝ) (bound : Float) : Prop := ∃ value ∈ rational? bound, (value : ℝ) ≤ x

def Above (x : ℝ) (bound : Float) : Prop := ∃ value ∈ rational? bound, (value : ℝ) < x

def AtMost (x : ℝ) (bound : Float) : Prop := ∃ value ∈ rational? bound, x ≤ (value : ℝ)

def Below (x : ℝ) (bound : Float) : Prop := ∃ value ∈ rational? bound, x < (value : ℝ)

theorem Above.atLeast (h : Above x bound) : AtLeast x bound := by
  obtain ⟨value, hvalue, hless⟩ := h
  exact ⟨value, hvalue, hless.le⟩

theorem Below.atMost (h : Below x bound) : AtMost x bound := by
  obtain ⟨value, hvalue, hless⟩ := h
  exact ⟨value, hvalue, hless.le⟩

/-- What a limit and the exclusive keyword beside it ask: to keep to the limit, strictly so under
a true flag, and to keep strictly to the bound that the keyword has of its own. -/
structure KeepsTo (loosely strictly : Float → Prop) (limit : Option Float)
    (exclusive : Option ExclusiveBound) : Prop where
  within : ∀ bound ∈ limit, loosely bound
  flag : exclusive = some (.flag true) → ∀ bound ∈ limit, strictly bound
  own : ∀ bound, exclusive = some (.value bound) → strictly bound

/-- The number keeps to the bounds of the schema. -/
def Keywords.Admits (keywords : Keywords) (x : ℝ) : Prop :=
  KeepsTo (AtLeast x) (Above x) keywords.minimum keywords.exclusiveMinimum ∧
    KeepsTo (AtMost x) (Below x) keywords.maximum keywords.exclusiveMaximum

end SpecForm.Schema

namespace SpecForm.Form.Rule

open Schema

/-! ## Rules on numbers -/

/-- What a rule asks of a number. -/
def Admits (x : ℝ) : Rule → Prop
  | .min bound => AtLeast x bound
  | .max bound => AtMost x bound
  | .exclusiveMinimum bound => Above x bound
  | .exclusiveMaximum bound => Below x bound
  | _ => True

theorem keepsTo_iff {loosely strictly : Float → Prop}
    (hstrictly : ∀ bound, strictly bound → loosely bound) (limit : Option Float)
    (exclusive : Option ExclusiveBound) :
    KeepsTo loosely strictly limit exclusive ↔
      (∀ bound ∈ looseBound exclusive limit, loosely bound) ∧
        ∀ bound ∈ strictBound exclusive limit, strictly bound := by
  match exclusive with
  | none | some (.flag false) =>
      exact ⟨fun h => ⟨h.within, nofun⟩, fun h => ⟨h.1, nofun, nofun⟩⟩
  | some (.flag true) =>
      exact ⟨fun h => ⟨nofun, h.flag rfl⟩,
        fun h => ⟨fun bound hbound => hstrictly bound (h.2 bound hbound), fun _ => h.2, nofun⟩⟩
  | some (.value own) =>
      refine ⟨fun h => ⟨h.within, ?_⟩, fun h => ⟨h.1, nofun, ?_⟩⟩
      · rintro _ ⟨⟩
        exact h.own own rfl
      · rintro _ ⟨⟩
        exact h.2 own rfl

theorem ite_eq_toList (condition : Prop) [Decidable condition] (rule : Rule) :
    (if condition then [rule] else []) =
      ((if condition then some () else none).map fun _ => rule).toList := by
  split
  · rfl
  · rfl

theorem forall_mem_toList_map {α : Type} {make : α → Rule} {property : Rule → Prop}
    {given : Option α} : (∀ rule ∈ (given.map make).toList, property rule) ↔
      ∀ value ∈ given, property (make value) := by
  cases given with
  | none => simp
  | some value => simp

theorem forall_admits_iff (keywords : Keywords) (required : Bool) (x : ℝ) :
    (∀ rule ∈ ofKeywords keywords required, rule.Admits x) ↔ keywords.Admits x := by
  rw [Keywords.Admits, keepsTo_iff fun _ => Above.atLeast, keepsTo_iff fun _ => Below.atMost]
  -- The list is unfolded by hand: an equation for it takes long to make.
  delta ofKeywords
  simp only [ite_eq_toList, List.forall_mem_append, forall_mem_toList_map, Admits,
    implies_true, and_true, true_and]
  constructor
  · rintro ⟨⟨⟨hmin, hmax⟩, habove⟩, hbelow⟩
    exact ⟨⟨hmin, habove⟩, hmax, hbelow⟩
  · rintro ⟨⟨hmin, habove⟩, hmax, hbelow⟩
    exact ⟨⟨⟨hmin, hmax⟩, habove⟩, hbelow⟩

/-! ## Kinds -/

def kind (rule : Rule) : String := (rule.toJson.stringMember? "type").getD ""

def kinds : List String :=
  ["required", "minLength", "maxLength", "min", "max", "pattern", "email", "exclusiveMinimum",
    "exclusiveMaximum", "multipleOf", "uniqueItems", "minItems", "maxItems", "minProperties",
    "maxProperties", "contains", "const", "not"]

theorem sublist_map_kind {α : Type} {make : α → Rule} {name : String}
    (h : ∀ value, (make value).kind = name) (given : Option α) :
    ((given.map make).toList.map kind).Sublist [name] := by
  cases given with
  | none => simp
  | some value => simp [h]

theorem map_kind_sublist (keywords : Keywords) (required : Bool) :
    ((ofKeywords keywords required).map kind).Sublist kinds := by
  have hkinds : kinds = ["required"] ++ ["minLength"] ++ ["maxLength"] ++ ["min"] ++ ["max"] ++
      ["pattern"] ++ ["email"] ++ ["exclusiveMinimum"] ++ ["exclusiveMaximum"] ++ ["multipleOf"] ++
      ["uniqueItems"] ++ ["minItems"] ++ ["maxItems"] ++ ["minProperties"] ++ ["maxProperties"] ++
      ["contains"] ++ ["const"] ++ ["not"] := rfl
  delta ofKeywords
  simp only [hkinds, ite_eq_toList, List.map_append]
  repeat' apply List.Sublist.append
  all_goals
    apply sublist_map_kind
    intro value
    rfl

theorem required_mem_iff (keywords : Keywords) (required : Bool) :
    Rule.required ∈ ofKeywords keywords required ↔ required = true := by
  have hother : ∀ {α : Type} {make : α → Rule} {given : Option α},
      (∀ value, make value ≠ .required) → Rule.required ∉ (given.map make).toList := by
    intro α make given hne
    cases given with
    | none => simp
    | some value => simpa using (hne value).symm
  delta ofKeywords
  simp [hother]

/--
A number keeps to the rules of a schema on numbers just if it keeps to the bounds of the schema:
to the minimum and the maximum, strictly where a true flag stands beside them, and strictly to the
exclusive bounds that are numbers; a flag that stands alone asks for nothing.  The rules are in the
order of their kinds and of no kind twice, and that a value is required is among them just if it is.
-/
theorem ofKeywords_exact (keywords : Keywords) (required : Bool) :
    let rules := ofKeywords keywords required
    (∀ x : ℝ, (∀ rule ∈ rules, rule.Admits x) ↔ keywords.Admits x) ∧
      (rules.Pairwise fun first second => kinds.idxOf first.kind < kinds.idxOf second.kind) ∧
      (∀ rule ∈ rules, rule.kind ∈ kinds) ∧ (rules.map kind).Nodup ∧
      (Rule.required ∈ rules ↔ required = true) := by
  intro rules
  have hsublist : (rules.map kind).Sublist kinds := map_kind_sublist keywords required
  have hordered : kinds.Pairwise fun first second => kinds.idxOf first < kinds.idxOf second := by
    decide
  have hnodup : kinds.Nodup := by decide
  refine ⟨forall_admits_iff keywords required, ?_, ?_, hnodup.sublist hsublist,
    required_mem_iff keywords required⟩
  · have hkinds := hordered.sublist hsublist
    rwa [List.pairwise_map] at hkinds
  · intro rule hrule
    have hmem : rule.kind ∈ rules.map kind := List.mem_map.mpr ⟨rule, hrule, rfl⟩
    exact hsublist.subset hmem

end SpecForm.Form.Rule
