import SpecForm.Form.Model

/-!
# Forms as JSON

The written form of an analysis.  What a control or a rule does not have is left
out, so that a default of `null` can be told from no default.
-/

namespace SpecForm.Form

def count (n : Nat) : Json := .int n

def optional (name : String) (value : Option Json) : List (String × Json) :=
  (value.map (name, ·)).toList

namespace Rule

def typed (type : String) (members : List (String × Json)) : Json :=
  .object (("type", .string type) :: members)

def valued (type : String) (value : Json) : Json := typed type [("value", value)]

def toJson : Rule → Json
  | .required => typed "required" []
  | .minLength n => valued "minLength" (count n)
  | .maxLength n => valued "maxLength" (count n)
  | .min bound => valued "min" (.float bound)
  | .max bound => valued "max" (.float bound)
  | .pattern text => valued "pattern" (.string text)
  | .email => typed "email" []
  | .exclusiveMinimum bound => valued "exclusiveMinimum" (.float bound)
  | .exclusiveMaximum bound => valued "exclusiveMaximum" (.float bound)
  | .multipleOf factor => valued "multipleOf" (.float factor)
  | .uniqueItems => typed "uniqueItems" []
  | .minItems n => valued "minItems" (count n)
  | .maxItems n => valued "maxItems" (count n)
  | .minProperties n => valued "minProperties" (count n)
  | .maxProperties n => valued "maxProperties" (count n)
  | .contains schema least most =>
      typed "contains" (("schema", schema) ::
        optional "minContains" (least.map count) ++ optional "maxContains" (most.map count))
  | .const value => valued "const" value
  | .negation schema => typed "not" [("schema", schema)]

end Rule

namespace Control

def commonMembers (control : Control) : List (String × Json) :=
  let field := control.field
  [("name", .string field.name), ("propertyName", .string field.propertyName),
    ("dataType", .string field.dataType)] ++
  optional "defaultValue" field.default ++
  [("validationRules", .array (field.rules.map Rule.toJson)),
    ("controlType", .string control.typeName)]

mutual

def toJson : Control → Json
  | .plain field => .object (Control.plain field).commonMembers
  | .group field form controls =>
      .object ((Control.group field form controls).commonMembers ++
        [("nestedFormInterface", .string form), ("nestedControls", .array (listToJson controls))])
  | .list field => .object (Control.list field).commonMembers
  | .formList field form controls =>
      .object ((Control.formList field form controls).commonMembers ++
        [("nestedFormInterface", .string form), ("nestedControls", .array (listToJson controls))])
  | .map field value keys =>
      .object ((Control.map field value keys).commonMembers ++
        ("mapValueControl", toJson value) ::
          (optional "keyPattern" (keys.pattern.map .string) ++
            optional "keyMinLength" (keys.minLength.map count) ++
            optional "keyMaxLength" (keys.maxLength.map count)))

def listToJson : List Control → List Json
  | [] => []
  | control :: rest => toJson control :: listToJson rest

end

end Control

def Interface.toJson (interface : Interface) : Json :=
  .object
    [("name", .string interface.name),
      ("properties", .array (interface.properties.map fun name =>
        .object [("name", .string name)])),
      ("isTopLevel", .bool interface.isTopLevel)]

def Variant.toJson (variant : Variant) : Json :=
  .object
    [("discriminatorValue", .string variant.value), ("modelName", .string variant.modelName),
      ("subFormName", .string variant.subFormName),
      ("controls", .array (variant.controls.map Control.toJson))]

def VariantSet.toJson (set : VariantSet) : Json :=
  .object
    ([("propertyName", .string set.discriminator), ("formProperty", .string set.property),
      ("discriminatorOptions", .array (set.values.map .string)),
      ("options", .array (set.variants.map Variant.toJson))] ++
      optional "defaultOption" (set.defaultValue.map .string))

def Dependency.toJson (dependency : Dependency) : Json :=
  .object
    [("triggerField", .string dependency.trigger), ("targetField", .string dependency.target),
      ("type", .string "required")]

def Analysis.toJson (analysis : Analysis) : Json :=
  .object
    [("modelName", .string analysis.modelName), ("formInterface", .string analysis.form),
      ("controls", .array (analysis.controls.map Control.toJson)),
      ("interfaces", .array (analysis.interfaces.map Interface.toJson)),
      ("usesCustomValidators", .bool analysis.features.usesCustomValidators),
      ("hasFormArrays", .bool analysis.features.hasFormArrays),
      ("hasFileUploads", .bool analysis.features.hasFileUploads),
      ("hasMaps", .bool analysis.features.hasMaps),
      ("isPolymorphic", .bool analysis.features.isPolymorphic),
      ("polymorphicProperties", .array (analysis.variantSets.map VariantSet.toJson)),
      ("dependencyRules", .array (analysis.dependencies.map Dependency.toJson))]

end SpecForm.Form
