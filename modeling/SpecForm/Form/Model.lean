import SpecForm.Document.Node
import SpecForm.Form.Rule

/-!
# Forms

A form has a control for each property of a model.  A control for an object holds
a nested form, whose controls the form library knows under the name of an
interface; so does a control for an array of objects.  A control for a map holds
the control of its values.
-/

namespace SpecForm.Form

structure Field where
  name : String
  propertyName : String
  dataType : String
  default : Option Json
  rules : List Rule
  deriving Inhabited

structure KeyRules where
  pattern : Option String
  minLength : Option Nat
  maxLength : Option Nat
  deriving DecidableEq, Repr, Inhabited

inductive Control where
  | plain (field : Field)
  | group (field : Field) (form : String) (controls : List Control)
  | list (field : Field)
  | formList (field : Field) (form : String) (controls : List Control)
  | map (field : Field) (value : Control) (keys : KeyRules)
  deriving Inhabited

namespace Control

def field : Control → Field
  | .plain field | .list field => field
  | .group field _ _ | .formList field _ _ => field
  | .map field _ _ => field

def nested? : Control → Option (String × List Control)
  | .group _ form controls | .formList _ form controls => some (form, controls)
  | _ => none

def mapValue? : Control → Option Control
  | .map _ value _ => some value
  | _ => none

def typeName : Control → String
  | .plain _ => "control"
  | .group _ _ _ => "group"
  | .list _ | .formList _ _ _ => "array"
  | .map _ _ _ => "map"

end Control

structure Interface where
  name : String
  properties : List String
  isTopLevel : Bool
  deriving DecidableEq, Repr, Inhabited

structure Variant where
  value : String
  modelName : String
  subFormName : String
  controls : List Control
  deriving Inhabited

structure VariantSet where
  discriminator : String
  property : String
  values : List String
  variants : List Variant
  defaultValue : Option String
  deriving Inhabited

structure Dependency where
  trigger : String
  target : String
  deriving DecidableEq, Repr, Inhabited

structure Features where
  usesCustomValidators : Bool
  hasFormArrays : Bool
  hasFileUploads : Bool
  hasMaps : Bool
  isPolymorphic : Bool
  deriving DecidableEq, Repr, Inhabited

def Features.none : Features := ⟨false, false, false, false, false⟩

/-- A property of a model; its schema may be a reference. -/
structure Property where
  name : String
  schema : Node
  required : Bool
  deriving Inhabited

structure Resource where
  modelName : String
  properties : List Property
  schema : Option Node
  deriving Inhabited

structure Analysis where
  modelName : String
  form : String
  controls : List Control
  interfaces : List Interface
  features : Features
  variantSets : List VariantSet
  dependencies : List Dependency
  deriving Inhabited

namespace Analysis

def interface? (analysis : Analysis) (name : String) : Option Interface :=
  analysis.interfaces.find? (·.name = name)

def control? (analysis : Analysis) (property : String) : Option Control :=
  analysis.controls.find? (·.field.propertyName = property)

end Analysis

end SpecForm.Form
