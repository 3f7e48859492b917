import SpecForm.Decimal.Shortest
import SpecForm.Naming.Identifier
import SpecForm.TypeScript.Type

/-!
# Type texts

An array type puts its item in parentheses where that is a union or an
intersection, and an intersection does so with unions.
-/

namespace SpecForm.TypeScript

def Primitive.text : Primitive → String
  | .string => "string"
  | .number => "number"
  | .boolean => "boolean"
  | .null => "null"
  | .unknown => "unknown"
  | .file => "File"

def Literal.text : Literal → String
  | .string value => Naming.quoted value
  | .int value => toString value
  | .number value => Decimal.plainText value
  | .bool value => if value then "true" else "false"

namespace TypeExpr

def parenthesized (needed : Bool) (text : String) : String :=
  if needed then "(" ++ text ++ ")" else text

def isCompound : TypeExpr → Bool
  | .union _ | .intersection _ => true
  | _ => false

mutual

def text : TypeExpr → String
  | .primitive name => name.text
  | .array item => parenthesized item.isCompound item.text ++ "[]"
  | .union members => " | ".intercalate (unionTexts members)
  | .intersection members => " & ".intercalate (intersectionTexts members)
  | .object [] => "\x7b\x7d"
  | .object members => "\x7b " ++ "; ".intercalate (memberTexts members) ++ " \x7d"
  | .record key value => "Record<" ++ key.text ++ ", " ++ value.text ++ ">"
  | .literal value => value.text
  | .named name => name

def unionTexts : List TypeExpr → List String
  | [] => []
  | type :: rest => type.text :: unionTexts rest

def intersectionTexts : List TypeExpr → List String
  | [] => []
  | type :: rest => parenthesized type.isUnion type.text :: intersectionTexts rest

def memberTexts : List (String × Bool × TypeExpr) → List String
  | [] => []
  | (name, optional, type) :: rest =>
      (Naming.propertyKey name ++ (if optional then "?" else "") ++ ": " ++ type.text) ::
        memberTexts rest

end

end TypeExpr

end SpecForm.TypeScript
