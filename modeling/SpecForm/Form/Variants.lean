import SpecForm.Form.Model
import SpecForm.Json.Writer
import SpecForm.Naming.Words
import SpecForm.Reference

/-!
# Telling branches apart

A branch of a `oneOf` has a discriminator value: the one value that its
discriminator property may take, or the key of the mapping that names the branch,
or the name by which the branch is referred to.
-/

namespace SpecForm.Form

open Schema

def valueText? : Json → Option String
  | .string text => some text
  | .bool value => some (Json.bool value).compact
  | .int value => some (Json.int value).compact
  | .float value => some (Json.float value).compact
  | _ => none

/-- Whether a target of a mapping names a reference: in the same words, or, if it
is a bare name, by the reference's last part. -/
def targetNames (target reference : String) : Bool :=
  target = reference ||
    (!target.toList.any (fun c => c = '/' || c = '#') && Reference.targetName reference = target)

def enumTexts (tag : Keywords) : List String := (tag.enumeration.getD []).filterMap valueText?

def discriminatorValue? (tag : Keywords) (discriminator : Discriminator)
    (reference : Option String) : Option String :=
  match enumTexts tag, tag.const.bind valueText?, reference with
  | [only], _, _ => some only
  | _, some text, _ => some text
  | _, none, none => none
  | _, none, some reference =>
      match discriminator.targets.find? fun (_, target) => targetNames target reference with
      | some (key, _) => some key
      | none => some (Reference.targetName reference)

def addText (texts : List String) (text : String) : List String :=
  if texts.contains text then texts else texts ++ [text]

def variantModelName (reference : Option String) (index : Nat) : String :=
  match reference with
  | some reference => Naming.pascalCase (Reference.targetName reference)
  | none => "Option" ++ toString (index + 1)

/-- The value of the first variant that a default names, by its value, by its
reference or by its model. -/
def defaultVariant? (variants : List (Variant × Option String)) (discriminator : Discriminator)
    (default : String) : Option String :=
  let target := (discriminator.targets.lookup default).getD default
  let isMeant (entry : Variant × Option String) : Bool :=
    entry.1.value = default || entry.2.any (targetNames target) ||
      entry.1.modelName = Naming.pascalCase (Reference.targetName target)
  (variants.find? isMeant).map fun (variant, _) => variant.value

end SpecForm.Form
