import SpecForm.Schema.Keywords

/-!
# Validation rules

The rules of a control come from the keywords of its schema, in a fixed order of
kinds and at most one of each kind.  A bound with a strict flag beside it gives a
strict rule instead of its own.
-/

namespace SpecForm.Form

open Schema

inductive Rule where
  | required
  | minLength (count : Nat)
  | maxLength (count : Nat)
  | min (bound : Float)
  | max (bound : Float)
  | pattern (text : String)
  | email
  | exclusiveMinimum (bound : Float)
  | exclusiveMaximum (bound : Float)
  | multipleOf (factor : Float)
  | uniqueItems
  | minItems (count : Nat)
  | maxItems (count : Nat)
  | minProperties (count : Nat)
  | maxProperties (count : Nat)
  | contains (schema : Json) (least most : Option Nat)
  | const (value : Json)
  | negation (schema : Json)

namespace Rule

def needsCustomValidator : Rule → Bool
  | .exclusiveMinimum _ | .exclusiveMaximum _ | .multipleOf _ | .uniqueItems | .negation _ =>
      true
  | _ => false

def isStrictFlag : Option ExclusiveBound → Bool
  | some (.flag strict) => strict
  | _ => false

/-- The strict bound: the keyword's own, or the one beside it under a strict flag. -/
def strictBound (exclusive : Option ExclusiveBound) (beside : Option Float) : Option Float :=
  match exclusive with
  | some (.value bound) => some bound
  | some (.flag true) => beside
  | _ => none

/-- The bound beside an exclusive keyword, unless a strict flag takes it over. -/
def looseBound (exclusive : Option ExclusiveBound) (beside : Option Float) : Option Float :=
  if isStrictFlag exclusive then none else beside

def ofKeywords (keywords : Keywords) (required : Bool) : List Rule :=
  (if required then [.required] else []) ++
  (keywords.minLength.map .minLength).toList ++
  (keywords.maxLength.map .maxLength).toList ++
  ((looseBound keywords.exclusiveMinimum keywords.minimum).map .min).toList ++
  ((looseBound keywords.exclusiveMaximum keywords.maximum).map .max).toList ++
  (keywords.pattern.map .pattern).toList ++
  (if keywords.format = some "email" then [.email] else []) ++
  ((strictBound keywords.exclusiveMinimum keywords.minimum).map .exclusiveMinimum).toList ++
  ((strictBound keywords.exclusiveMaximum keywords.maximum).map .exclusiveMaximum).toList ++
  (keywords.multipleOf.map .multipleOf).toList ++
  (if keywords.uniqueItems = some true then [.uniqueItems] else []) ++
  (keywords.minItems.map .minItems).toList ++
  (keywords.maxItems.map .maxItems).toList ++
  (keywords.minProperties.map .minProperties).toList ++
  (keywords.maxProperties.map .maxProperties).toList ++
  (keywords.contains.map fun schema =>
    .contains schema keywords.minContains keywords.maxContains).toList ++
  (keywords.const.map .const).toList ++
  (keywords.negation.map .negation).toList

end Rule

end SpecForm.Form
