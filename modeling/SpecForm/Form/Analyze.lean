import SpecForm.Form.Resource
import SpecForm.Form.Variants
import SpecForm.TypeScript.OfSchema
import SpecForm.TypeScript.Printer

/-!
# Analysing a model

The walk turns every property of a model into a control and registers an
interface for every form, nested forms before the form that holds them.  A schema
that is being expanded is not expanded again beneath itself: a nested form of it
is empty and carries the name of the interface into which it is being expanded,
and a map of it becomes a plain control.  The same happens where the walk is as
deep as it may go.

The walk runs in any monad that keeps one, so that it can be watched as it goes.
-/

namespace SpecForm.Form

open Schema

/-- `active` lists the schemas that are being expanded, outermost first, with the
interfaces into which they are. -/
structure Walk where
  features : Features
  active : List (Key × String)
  deriving Inhabited

namespace Walk

def start : Walk := ⟨.none, []⟩

def expansion? (walk : Walk) (schema : Node) : Option String :=
  schema.key?.bind fun key => walk.active.lookup key

def enter (walk : Walk) (schema : Node) (form : String) : Walk :=
  match schema.key? with
  | some key => { walk with active := walk.active ++ [(key, form)] }
  | none => walk

def leave (walk : Walk) (schema : Node) : Walk :=
  match schema.key? with
  | some _ => { walk with active := walk.active.dropLast }
  | none => walk

def mark (change : Features → Features) (walk : Walk) : Walk :=
  { walk with features := change walk.features }

end Walk

abbrev WalkM := StateM Walk

-- A part whose monad nothing tells is a part of a walk that is not watched.
@[default_instance]
instance : MonadStateOf Walk WalkM := inferInstance

abbrev Built := Control × List Interface

/-- Builds the control of a property, one level deeper, under a given name if it
is a group; `none` where the walk may go no deeper. -/
abbrev DeeperIn (m : Type → Type) := Option (Property → Option String → m (Option Built))

abbrev Deeper := DeeperIn WalkM

/-! ## Shapes -/

inductive Shape where
  | group | map | array | leaf
  deriving DecidableEq, Repr

def hasProperties (schema : Node) : Bool := (schema.member? "properties").any Node.isObject

def hasDynamicMembers (schema : Node) : Bool :=
  (schema.member? "patternProperties").any (fun patterns => !patterns.entries.isEmpty) ||
    ["additionalProperties", "unevaluatedProperties"].any fun keyword =>
      (schema.member? keyword).any fun node => node.value.asBool? ≠ some false

def classify (schema : Node) (keywords : Keywords) : Shape :=
  let declared := keywords.nonNullTypes
  let isObject := declared.isEmpty || declared.contains "object"
  if isObject && hasProperties schema then .group
  else if isObject && hasDynamicMembers schema then .map
  else if declared.contains "array" || (declared.isEmpty && schema.has "items") then .array
  else .leaf

def formName (model : String) : String := Naming.pascalCase model ++ "Form"

def typeText (resolver : Resolver) (schema : Node) : String :=
  (TypeScript.ofSchema resolver schema).text

def isFileType (dataType : String) : Bool := dataType = "File" || dataType = "File[]"

/-! ## Controls -/

variable {m : Type → Type} [Monad m] [MonadStateOf Walk m]

def buildForm (build : Property → m (Option Built)) (form : String)
    (properties : List Property) : m (List Control × List Interface) := do
  let built ← properties.filterMapM build
  let controls := built.map Prod.fst
  let names := controls.map fun control => control.field.propertyName
  return (controls, built.flatMap Prod.snd ++ [⟨form, names, false⟩])

structure NestedForm where
  form : String
  controls : List Control
  interfaces : List Interface

def nestedForm (resolver : Resolver) (deeper : DeeperIn m) (schema : Node) (form : String) :
    m NestedForm := do
  match (← get).expansion? schema with
  | some enclosing => return ⟨enclosing, [], []⟩
  | none =>
      match deeper with
      | none => return ⟨form, [], [⟨form, [], false⟩]⟩
      | some build =>
          modify (·.enter schema form)
          let (controls, interfaces) ←
            buildForm (build · none) form (mergedProperties resolver schema)
          modify (·.leave schema)
          return ⟨form, controls, interfaces⟩

def mapParts (resolver : Resolver) (schema : Node) : KeyRules × Node :=
  let keys := ((schema.member? "propertyNames").bind resolver.resolve).map Keywords.ofNode
  let first := (schema.member? "patternProperties").bind fun patterns => patterns.entries.head?
  let minLength := keys.bind Keywords.minLength
  let maxLength := keys.bind Keywords.maxLength
  match first with
  | some (pattern, value) => (⟨some pattern, minLength, maxLength⟩, value)
  | none =>
      let value := ["additionalProperties", "unevaluatedProperties"].findSome? fun keyword =>
        (schema.member? keyword).filter Node.isObject
      (⟨keys.bind Keywords.pattern, minLength, maxLength⟩,
        value.getD (.detached (.object [])))

def unknownValue : Control := .plain ⟨"value", "value", "unknown", none, []⟩

def fieldOf (property : Property) (keywords : Keywords) (rules : List Rule)
    (dataType : String) : Field :=
  ⟨Naming.identifier property.name, property.name, dataType, keywords.default, rules⟩

def mapControl (resolver : Resolver) (build : Property → Option String → m (Option Built))
    (property : Property) (schema : Node) (field : String → Field) : m Built := do
  modify (·.mark ({ · with hasMaps := true }))
  let (keys, value) := mapParts resolver schema
  let form := Naming.pascalCase property.name ++ "ValueForm"
  modify (·.enter schema form)
  let value ← build ⟨"value", value, false⟩ (some form)
  modify (·.leave schema)
  let (value, interfaces) := value.getD (unknownValue, [])
  return (.map (field ("Record<string, " ++ value.field.dataType ++ ">")) value keys, interfaces)

def arrayControl (resolver : Resolver) (deeper : DeeperIn m) (property : Property) (schema : Node)
    (field : String → Field) : m Built := do
  match ((schema.member? "items").bind resolver.resolve).filter hasProperties with
  | some items =>
      modify (·.mark ({ · with hasFormArrays := true }))
      let nested ← nestedForm resolver deeper items (formName (Naming.singular property.name))
      return (.formList (field (nested.form ++ "[]")) nested.form nested.controls,
        nested.interfaces)
  | none => return (.list (field (typeText resolver schema)), [])

def shapedControl (resolver : Resolver) (deeper : DeeperIn m) (property : Property)
    (groupName : Option String) (schema : Node) (field : String → Field) : m Built := do
  let leaf : Built := (.plain (field (typeText resolver property.schema)), [])
  match classify schema (Keywords.ofNode schema), deeper with
  | .group, _ =>
      let nested ← nestedForm resolver deeper schema (groupName.getD (formName property.name))
      return (.group (field nested.form) nested.form nested.controls, nested.interfaces)
  | .map, none => return leaf
  | .map, some build =>
      if ((← get).expansion? schema).isSome then return leaf
      else mapControl resolver build property schema field
  | .array, _ => arrayControl resolver deeper property schema field
  | .leaf, _ => return leaf

def controlOf (resolver : Resolver) (deeper : DeeperIn m) (property : Property)
    (groupName : Option String) : m (Option Built) := do
  match resolver.resolve property.schema with
  | none => return none
  | some schema =>
      let keywords := Keywords.ofNode schema
      let rules := Rule.ofKeywords keywords property.required
      if rules.any Rule.needsCustomValidator then
        modify (·.mark ({ · with usesCustomValidators := true }))
      let built ← shapedControl resolver deeper property groupName schema
        (fieldOf property keywords rules)
      if isFileType built.1.field.dataType then
        modify (·.mark ({ · with hasFileUploads := true }))
      return some built

def buildControl (resolver : Resolver) (depth : Nat) :
    Property → Option String → m (Option Built) :=
  controlOf resolver (match depth with
    | 0 => none
    | depth + 1 => some (buildControl resolver depth))

/-! ## Variants -/

/-- What one branch of a `oneOf` adds: discriminator values, and a variant with
the reference that stands for it and the interfaces inside it. -/
structure Branch where
  values : List String
  variant : Option (Variant × Option String × List Interface)
  deriving Inhabited

def buildBranch (resolver : Resolver) (depth : Nat) (discriminator : Discriminator)
    (branch : Node) (index : Nat) : m Branch := do
  match resolver.resolve branch with
  | none => return ⟨[], none⟩
  | some schema =>
      let reference := branch.string? "$ref"
      let properties := mergedProperties resolver schema
      match properties.find? (·.name = discriminator.propertyName) with
      | none => return ⟨[], none⟩
      | some tag =>
          let keywords :=
            ((resolver.resolve tag.schema).map Keywords.ofNode).getD (Keywords.ofJson .null)
          match discriminatorValue? keywords discriminator reference with
          | none => return ⟨enumTexts keywords, none⟩
          | some value =>
              let model := variantModelName reference index
              let form := "Temp" ++ model ++ "Form"
              let rest := properties.filter (·.name ≠ discriminator.propertyName)
              let (controls, interfaces) ←
                buildForm (buildControl resolver (depth - 1) · none) form rest
              let variant : Variant := ⟨value, model, Naming.camelCase model ++ "Form", controls⟩
              return ⟨enumTexts keywords ++ [value],
                some (variant, reference, interfaces.filter (·.name ≠ form))⟩

def buildVariants (resolver : Resolver) (depth : Nat) (property : Property) :
    m (Option (VariantSet × List Interface)) := do
  let found := do
    let schema ← resolver.resolve property.schema
    let discriminator ← (Keywords.ofNode schema).discriminator
    let oneOf ← schema.member? "oneOf"
    return (discriminator, oneOf)
  match found with
  | none => return none
  | some (discriminator, oneOf) =>
      let branches ← oneOf.items.zipIdx.mapM fun (branch, index) =>
        buildBranch resolver depth discriminator branch index
      let built := branches.filterMap Branch.variant
      let variants := built.map fun (variant, reference, _) => (variant, reference)
      let default := discriminator.defaultMapping.bind (defaultVariant? variants discriminator)
      let set : VariantSet :=
        ⟨discriminator.propertyName, property.name,
          (branches.flatMap Branch.values).foldl addText [], variants.map Prod.fst, default⟩
      modify (·.mark ({ · with isPolymorphic := true }))
      return some (set, built.flatMap fun (_, _, interfaces) => interfaces)

/-! ## Models -/

structure TopProperty where
  variants : Option VariantSet
  control : Option Control
  interfaces : List Interface
  deriving Inhabited

def buildTopProperty (resolver : Resolver) (depth : Nat) (property : Property) :
    m TopProperty := do
  let variants ← buildVariants resolver depth property
  let built ← buildControl resolver depth property none
  return ⟨variants.map Prod.fst, built.map Prod.fst,
    variants.elim [] Prod.snd ++ built.elim [] Prod.snd⟩

def dependencies (resolver : Resolver) (schema : Node) : List Dependency :=
  ((schema.member? "dependentSchemas").elim [] Node.entries).flatMap fun (trigger, node) =>
    match resolver.resolve node with
    | some dependent => (Merge.requiredNames dependent).map (⟨trigger, ·⟩)
    | none => []

def analyze (resolver : Resolver) (depth : Nat) (resource : Resource) : Analysis :=
  let form := formName resource.modelName
  let start := match resource.schema with
    | some schema => Walk.start.enter schema form
    | none => Walk.start
  let (tops, walk) := (resource.properties.mapM (buildTopProperty resolver depth)).run start
  let controls := tops.filterMap TopProperty.control
  let names := controls.map fun control => control.field.propertyName
  { modelName := resource.modelName
    form := form
    controls := controls
    interfaces := tops.flatMap TopProperty.interfaces ++ [⟨form, names, true⟩]
    features := walk.features
    variantSets := tops.filterMap TopProperty.variants
    dependencies := resource.schema.elim [] (dependencies resolver) }

end SpecForm.Form
