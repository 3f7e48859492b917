import SpecForm.Text.Case
import SpecForm.Text.Cluster

/-!
# Words of a name

A name falls into words at `_`, `-` and blanks, which are dropped, and between
characters where the kind of character changes: from lower to upper case, from
letters to digits and back, and before the last capital of a run that a lower
case letter follows (`HTTPServer` is `HTTP` and `Server`).
-/

namespace SpecForm.Naming

inductive Glyph where
  | upper | lower | digit | separator | other
  deriving DecidableEq, Repr

def glyph (cluster : List Char) : Glyph :=
  if cluster = ['_'] || cluster = ['-'] || cluster = [' '] then .separator
  else if cluster.all (·.isDigit) then .digit
  else if Text.isUpper cluster then .upper
  else if Text.isLower cluster then .lower
  else .other

/-- Whether a word ends between characters of kinds `first` and `second`, the
kind of the character after them being `third`. -/
def endsWord (first second : Glyph) (third : Option Glyph) : Bool :=
  match first, second with
  | .lower, .upper | .lower, .digit | .upper, .digit | .digit, .lower | .digit, .upper => true
  | .upper, .upper => third = some .lower
  | _, _ => false

/-- `word` is the open word, its last character first. -/
def wordsFrom (word : List (List Char)) : List (List Char) → List (List (List Char))
  | [] => [word.reverse]
  | cluster :: rest =>
      if glyph cluster = .separator then word.reverse :: wordsFrom [] rest
      else
        match rest with
        | next :: later =>
            if endsWord (glyph cluster) (glyph next) (later.head?.map glyph) then
              (cluster :: word).reverse :: wordsFrom [] rest
            else wordsFrom (cluster :: word) rest
        | [] => wordsFrom (cluster :: word) rest

/-- The words of a name, each as the list of its characters.  A name that starts
with a separator has an empty first word. -/
def words (name : String) : List (List (List Char)) :=
  wordsFrom [] (Text.Cluster.clusters name.toList)

def capitalized : List (List Char) → List Char
  | [] => []
  | first :: rest => Text.upper first ++ Text.lower rest.flatten

def pascalCase (name : String) : String :=
  String.ofList ((words name).flatMap capitalized)

/-- `pet_owner` becomes `petOwner`, and `_owner` becomes `Owner`. -/
def camelCase (name : String) : String :=
  match words name with
  | [] => ""
  | first :: rest => String.ofList (Text.lower first.flatten ++ rest.flatMap capitalized)

end SpecForm.Naming
