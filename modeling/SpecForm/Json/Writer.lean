import SpecForm.Decimal.Shortest
import SpecForm.Json.Value
import SpecForm.Text.Percent

/-!
# Writing JSON text

The compact form has no blanks; the indented form puts every item and member on
a line of its own.  Only the quotation mark, the backslash and the characters
below U+0020 are escaped.
-/

namespace SpecForm.Json

def lowerHexDigit (n : Nat) : Char := (Text.Percent.hexDigit n).toLower

def escapeControl (c : Char) : List Char :=
  match c with
  | '\x08' => ['\\', 'b']
  | '\t' => ['\\', 't']
  | '\n' => ['\\', 'n']
  | '\x0c' => ['\\', 'f']
  | '\r' => ['\\', 'r']
  | _ => ['\\', 'u', '0', '0', lowerHexDigit (c.toNat / 16), lowerHexDigit (c.toNat % 16)]

def escapeString : List Char → List Char
  | [] => []
  | c :: rest =>
      if c = '\x22' || c = '\\' then '\\' :: c :: escapeString rest
      else if c.toNat < 32 then escapeControl c ++ escapeString rest
      else c :: escapeString rest

def quoteString (text : String) : List Char :=
  '\x22' :: escapeString text.toList ++ ['\x22']

/-- A number that is not finite has no written form but `null`. -/
def writeFloat (x : Float) : List Char :=
  if Decimal.isFinite x then (Decimal.scientificText x).toList else "null".toList

mutual

def writeCompact : Json → List Char
  | .null => "null".toList
  | .bool value => (if value then "true" else "false").toList
  | .int value => (toString value).toList
  | .float value => writeFloat value
  | .string value => quoteString value
  | .array [] => ['[', ']']
  | .array (item :: rest) => '[' :: writeCompact item ++ writeItems rest
  | .object [] => ['\x7b', '\x7d']
  | .object ((name, value) :: rest) =>
      '\x7b' :: quoteString name ++ ':' :: writeCompact value ++ writeMembers rest

def writeItems : List Json → List Char
  | [] => [']']
  | item :: rest => ',' :: writeCompact item ++ writeItems rest

def writeMembers : List (String × Json) → List Char
  | [] => ['\x7d']
  | (name, value) :: rest =>
      ',' :: quoteString name ++ ':' :: writeCompact value ++ writeMembers rest

end

def compact (value : Json) : String := String.ofList value.writeCompact

/-! ## The indented form -/

def lineAt (depth : Nat) : List Char := '\n' :: List.replicate (2 * depth) ' '

mutual

def writeIndented (depth : Nat) : Json → List Char
  | .array [] => ['[', ']']
  | .array (item :: rest) =>
      '[' :: lineAt (depth + 1) ++ writeIndented (depth + 1) item ++
        writeIndentedItems depth rest
  | .object [] => ['\x7b', '\x7d']
  | .object ((name, value) :: rest) =>
      '\x7b' :: lineAt (depth + 1) ++ quoteString name ++ ':' :: ' ' ::
        writeIndented (depth + 1) value ++ writeIndentedMembers depth rest
  | scalar => writeCompact scalar

def writeIndentedItems (depth : Nat) : List Json → List Char
  | [] => lineAt depth ++ [']']
  | item :: rest =>
      ',' :: lineAt (depth + 1) ++ writeIndented (depth + 1) item ++
        writeIndentedItems depth rest

def writeIndentedMembers (depth : Nat) : List (String × Json) → List Char
  | [] => lineAt depth ++ ['\x7d']
  | (name, value) :: rest =>
      ',' :: lineAt (depth + 1) ++ quoteString name ++ ':' :: ' ' ::
        writeIndented (depth + 1) value ++ writeIndentedMembers depth rest

end

def indented (value : Json) : String := String.ofList (value.writeIndented 0)

end SpecForm.Json
