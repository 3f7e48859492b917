import SpecForm.Yaml.Layout
import SpecForm.Yaml.Scalar

/-!
# Reading YAML text

The value of a text is its tree with the aliases replaced by what they stand
for.  Collections may be nested 128 deep, and aliases followed a hundred times
for each event of the document, so that every text has a value of bounded size
or none.
-/

namespace SpecForm.Yaml

def maxDepth : Nat := 128

abbrev Expand := StateT Nat Option

namespace Document

def follow (document : Document) : Tree → Expand Tree
  | .alias number => do
      let followed := (← get) + 1
      set followed
      if 100 * document.events < followed then failure
      else document.anchored? number
  | tree => return tree

/-- The text of a key, whatever its tag; a collection is no key. -/
def keyText (document : Document) (key : Tree) : Expand String := do
  match ← document.follow key with
  | .scalar text _ _ => return String.ofList text
  | _ => failure

def expand (document : Document) : Nat → Tree → Expand Json
  | depth, tree => do
      match depth, ← document.follow tree with
      | _, .scalar text style tag =>
          if Scalar.isApplicationTag tag then failure else Scalar.value? text style tag
      | depth + 1, .sequence tag items =>
          if Scalar.isApplicationTag tag then failure
          else return .array (← items.mapM (document.expand depth))
      | depth + 1, .mapping tag entries =>
          if Scalar.isApplicationTag tag then failure
          else
            let members ← entries.foldlM (fun members (key, value) => do
              let name ← document.keyText key
              return Json.setMember name (← document.expand depth value) members) []
            return .object members
      | _, _ => failure

end Document

def parse? (text : String) : Option Json := do
  let tokens ← Token.readAll? text.toList
  let document ← Document.ofTokens? tokens
  (document.expand maxDepth document.root).run' 0

end SpecForm.Yaml
