import SpecForm.Decimal.Numeral
import SpecForm.Json.Value
import SpecForm.Yaml.Tree

/-!
# The values of scalars

A plain scalar without a tag is null, a boolean, an integer or a double if it is
written like one, and a string otherwise.  Digits after a leading zero make a
string.  Doubles that are not finite become null.
-/

namespace SpecForm.Yaml.Scalar

def isNullWord (text : List Char) : Bool :=
  ["null", "Null", "NULL", "~"].any fun word => word.toList = text

def asBool? (text : List Char) : Option Bool :=
  if ["true", "True", "TRUE"].any (fun word => word.toList = text) then some true
  else if ["false", "False", "FALSE"].any (fun word => word.toList = text) then some false
  else none

/-! ## Integers -/

def hasLeadingZero (text : List Char) : Bool :=
  match Decimal.withoutSign text with
  | '0' :: digit :: rest => (digit :: rest).all (·.isDigit)
  | _ => false

def base? : List Char → Option (Nat × List Char)
  | '0' :: 'x' :: rest => some (16, rest)
  | '0' :: 'o' :: rest => some (8, rest)
  | '0' :: 'b' :: rest => some (2, rest)
  | _ => none

def unsigned? (text : List Char) : Option Nat :=
  match base? text with
  | some (base, rest) => Decimal.magnitude? base rest
  | none => if hasLeadingZero text then none else Decimal.magnitude? 10 text

def asInt? : List Char → Option Int
  | '-' :: rest => (unsigned? rest).map fun n => -(n : Int)
  | '+' :: rest => (unsigned? rest).map fun n => (n : Int)
  | text => (unsigned? text).map fun n => (n : Int)

/-- The integers of 128 bits.  Those that a value cannot hold are still read as
integers, and are then refused. -/
def isReadable (n : Int) : Bool :=
  -0x80000000000000000000000000000000 ≤ n && n < 0x100000000000000000000000000000000

/-! ## Doubles -/

def isInfinity (text : List Char) : Bool :=
  [".inf", ".Inf", ".INF"].any fun word => word.toList = Decimal.withoutSign text

def isNotANumber (text : List Char) : Bool :=
  [".nan", ".NaN", ".NAN"].any fun word => word.toList = text

def asDouble? (text : List Char) : Option Json :=
  if isInfinity text || isNotANumber text then some .null
  else ((Decimal.nearest? text).filter (·.isFinite)).map .float

/-! ## Values -/

def ofPlain? (text : List Char) : Option Json :=
  if text.isEmpty || isNullWord text then some .null
  else match asBool? text with
    | some value => some (.bool value)
    | none =>
        match (asInt? text).filter isReadable with
        | some n => if Json.holdsInt n then some (.int n) else none
        | none =>
            match if hasLeadingZero text then none else asDouble? text with
            | some value => some value
            | none => some (.string (String.ofList text))

def isApplicationTag (tag : Option (List Char)) : Bool := tag.any fun tag => tag.head? = some '!'

def value? (text : List Char) (style : Style) (tag : Option (List Char)) : Option Json :=
  match tag.map String.ofList with
  | none => if style = .plain then ofPlain? text else some (.string (String.ofList text))
  | some tag =>
      if tag = "tag:yaml.org,2002:bool" then (asBool? text).map .bool
      else if tag = "tag:yaml.org,2002:int" then ((asInt? text).filter Json.holdsInt).map .int
      else if tag = "tag:yaml.org,2002:float" then asDouble? text
      else if tag = "tag:yaml.org,2002:null" then
        if isNullWord text then some .null else none
      else some (.string (String.ofList text))

end SpecForm.Yaml.Scalar
