import SpecForm.Json.Value

/-!
# Types of TypeScript

Only the types that schemas give rise to.  A union built by `union` holds no
union and no member twice; an intersection built by `intersection` has at least
two members.
-/

namespace SpecForm.TypeScript

inductive Primitive where
  | string | number | boolean | null | unknown | file
  deriving DecidableEq, Repr

inductive Literal where
  | string (value : String)
  | int (value : Int)
  | number (value : Float)
  | bool (value : Bool)

/-- The members of an object type are a name, whether the member may be missing,
and its type. -/
inductive TypeExpr where
  | primitive (name : Primitive)
  | array (item : TypeExpr)
  | union (members : List TypeExpr)
  | intersection (members : List TypeExpr)
  | object (members : List (String × Bool × TypeExpr))
  | record (key value : TypeExpr)
  | literal (value : Literal)
  | named (name : String)
  deriving Inhabited

def Literal.same : Literal → Literal → Bool
  | .string a, .string b => a = b
  | .int a, .int b => a = b
  | .number a, .number b => a == b
  | .bool a, .bool b => a = b
  | _, _ => false

namespace TypeExpr

mutual

def same : TypeExpr → TypeExpr → Bool
  | .primitive a, .primitive b => a = b
  | .array a, .array b => same a b
  | .union as, .union bs => sameAll as bs
  | .intersection as, .intersection bs => sameAll as bs
  | .object as, .object bs => sameMembers as bs
  | .record a x, .record b y => same a b && same x y
  | .literal a, .literal b => a.same b
  | .named a, .named b => a = b
  | _, _ => false

def sameAll : List TypeExpr → List TypeExpr → Bool
  | [], [] => true
  | a :: as, b :: bs => same a b && sameAll as bs
  | _, _ => false

def sameMembers : List (String × Bool × TypeExpr) → List (String × Bool × TypeExpr) → Bool
  | [], [] => true
  | (m, o, a) :: as, (n, p, b) :: bs => m = n && o = p && same a b && sameMembers as bs
  | _, _ => false

end

def unknown : TypeExpr := .primitive .unknown

def null : TypeExpr := .primitive .null

def isUnion : TypeExpr → Bool
  | .union _ => true
  | _ => false

def unionMembers : TypeExpr → List TypeExpr
  | .union members => members
  | type => [type]

def addNew (types : List TypeExpr) (type : TypeExpr) : List TypeExpr :=
  if types.any (same · type) then types else types ++ [type]

/-- The union of types, of which none is `unknown` and one is that type itself. -/
def unionOf (types : List TypeExpr) : TypeExpr :=
  match (types.flatMap unionMembers).foldl addNew [] with
  | [] => unknown
  | [type] => type
  | members => .union members

def intersectionOf : List TypeExpr → TypeExpr
  | [] => unknown
  | [type] => type
  | members => .intersection members

def stringRecord (value : TypeExpr) : TypeExpr := .record (.primitive .string) value

def orNull (type : TypeExpr) : TypeExpr := unionOf [type, null]

/-- The type of one JSON scalar; that of an array or object is not known.  An
integer of 64 bits with sign is kept as one. -/
def ofValue : Json → TypeExpr
  | .null => null
  | .bool value => .literal (.bool value)
  | .int value =>
      if value < 0x8000000000000000 then .literal (.int value)
      else .literal (.number (Decimal.ofInt value))
  | .float value => .literal (.number value)
  | .string value => .literal (.string value)
  | .array _ | .object _ => unknown

end TypeExpr

end SpecForm.TypeScript
