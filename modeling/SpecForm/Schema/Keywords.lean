import SpecForm.Decimal.Whole
import SpecForm.Document.Node
import SpecForm.Text.Cut

/-!
# Keywords of a schema

The keywords of one schema object that hold plain data.  Each is read on its
own: a value of the wrong shape leaves that keyword out and keeps the others.
Subschemas are not read here, since they have to keep their place in the
document.
-/

namespace SpecForm.Schema

inductive TypeNames where
  | single (name : String)
  | several (names : List String)
  deriving DecidableEq, Repr

def TypeNames.toList : TypeNames → List String
  | .single name => [name]
  | .several names => names

/-- `exclusiveMinimum` or `exclusiveMaximum`: a bound of its own, or a flag on the
bound beside it. -/
inductive ExclusiveBound where
  | flag (strict : Bool)
  | value (bound : Float)

structure Discriminator where
  propertyName : String
  mapping : List (String × Json)
  defaultMapping : Option String
  deriving Inhabited

def Discriminator.targets (discriminator : Discriminator) : List (String × String) :=
  discriminator.mapping.filterMap fun (key, target) => target.asString?.map (key, ·)

structure Keywords where
  types : Option TypeNames
  reference : Option String
  dynamicReference : Option String
  format : Option String
  contentMediaType : Option String
  const : Option Json
  default : Option Json
  enumeration : Option (List Json)
  nullable : Option Bool
  required : Option (List String)
  discriminator : Option Discriminator
  pattern : Option String
  minimum : Option Float
  maximum : Option Float
  exclusiveMinimum : Option ExclusiveBound
  exclusiveMaximum : Option ExclusiveBound
  multipleOf : Option Float
  minLength : Option Nat
  maxLength : Option Nat
  minItems : Option Nat
  maxItems : Option Nat
  uniqueItems : Option Bool
  minProperties : Option Nat
  maxProperties : Option Nat
  contains : Option Json
  minContains : Option Nat
  maxContains : Option Nat
  negation : Option Json

/-! ## Shapes of values -/

def strings? (value : Json) : Option (List String) :=
  value.asArray?.bind fun items => items.mapM Json.asString?

def typeNames? : Json → Option TypeNames
  | .string name => some (.single name)
  | value => (strings? value).map .several

def exclusiveBound? : Json → Option ExclusiveBound
  | .bool strict => some (.flag strict)
  | value => value.asFloat?.map .value

def count? : Json → Option Nat
  | .int value => if value < 0 then none else some value.toNat
  | .float value => Decimal.natBelow? UInt64.size value
  | _ => none

def optionalString? : Option Json → Option (Option String)
  | none | some .null => some none
  | some (.string text) => some (some text)
  | some _ => none

/-- A discriminator is a property name, an object, or an array that lists the
three members of that object. -/
def discriminator? : Json → Option Discriminator
  | .string name => some ⟨name, [], none⟩
  | .object members => do
      let name ← (members.lookup "propertyName").bind Json.asString?
      let mapping ← match members.lookup "mapping" with
        | none => some []
        | some value => value.asObject?
      let fallback ← optionalString? (members.lookup "defaultMapping")
      return ⟨name, mapping, fallback⟩
  | .array [name, mapping, fallback] => do
      return ⟨← name.asString?, ← mapping.asObject?, ← optionalString? (some fallback)⟩
  | _ => none

def notNull? : Json → Option Json
  | .null => none
  | value => some value

namespace Keywords

def ofJson (schema : Json) : Keywords :=
  let read {α : Type} (shape : Json → Option α) (name : String) : Option α :=
    (schema.member? name).bind shape
  { types := read typeNames? "type"
    reference := read Json.asString? "$ref"
    dynamicReference := read Json.asString? "$dynamicRef"
    format := read Json.asString? "format"
    contentMediaType := read Json.asString? "contentMediaType"
    const := schema.member? "const"
    default := schema.member? "default"
    enumeration := read Json.asArray? "enum"
    nullable := read Json.asBool? "nullable"
    required := read strings? "required"
    discriminator := read discriminator? "discriminator"
    pattern := read Json.asString? "pattern"
    minimum := read Json.asFloat? "minimum"
    maximum := read Json.asFloat? "maximum"
    exclusiveMinimum := read exclusiveBound? "exclusiveMinimum"
    exclusiveMaximum := read exclusiveBound? "exclusiveMaximum"
    multipleOf := read Json.asFloat? "multipleOf"
    minLength := read count? "minLength"
    maxLength := read count? "maxLength"
    minItems := read count? "minItems"
    maxItems := read count? "maxItems"
    uniqueItems := read Json.asBool? "uniqueItems"
    minProperties := read count? "minProperties"
    maxProperties := read count? "maxProperties"
    contains := read notNull? "contains"
    minContains := read count? "minContains"
    maxContains := read count? "maxContains"
    negation := read notNull? "not" }

def ofNode (schema : Node) : Keywords := ofJson schema.value

def typeList (keywords : Keywords) : List String := keywords.types.elim [] TypeNames.toList

def hasType (keywords : Keywords) (name : String) : Bool := keywords.typeList.contains name

def isNullable (keywords : Keywords) : Bool :=
  keywords.nullable = some true || keywords.hasType "null"

def nonNullTypes (keywords : Keywords) : List String :=
  keywords.typeList.filter (· ≠ "null")

/-- Whether strings of the schema are files: their format says so, or their media
type is neither JSON nor text. -/
def isBinary (keywords : Keywords) : Bool :=
  keywords.format = some "binary" ||
    keywords.contentMediaType.any fun media =>
      !Text.occursIn "json".toList media.toList && !"text/".toList.isPrefixOf media.toList

end Keywords

end SpecForm.Schema
