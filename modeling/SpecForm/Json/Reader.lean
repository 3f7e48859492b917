import SpecForm.Json.Token

/-!
# Reading JSON text

The tokens of a text are read one by one, with the open containers kept on a
stack.  A name that occurs twice in an object keeps its first place and takes
the last value.  At most 127 containers may be open at a time.
-/

namespace SpecForm.Json

inductive Frame where
  | array (items : List Json)
  | object (members : List (String × Json)) (name : String)
  deriving Inhabited

inductive Expected where
  | value
  | valueOrClose
  | name (members : List (String × Json))
  | nameOrClose
  | colon (members : List (String × Json)) (name : String)
  | commaOrClose
  | nothing
  deriving Inhabited

/-- The last value is kept in `done` until its container takes it. -/
structure Reading where
  expected : Expected
  stack : List Frame
  done : Json
  deriving Inhabited

def maxOpen : Nat := 127

namespace Reading

def start : Reading := ⟨.value, [], .null⟩

def complete (stack : List Frame) (value : Json) : Reading :=
  match stack with
  | [] => ⟨.nothing, [], value⟩
  | .array items :: rest => ⟨.commaOrClose, .array (value :: items) :: rest, .null⟩
  | .object members name :: rest =>
      ⟨.commaOrClose, .object (setMember name value members) name :: rest, .null⟩

def takeValue? (reading : Reading) (token : Token) : Option Reading :=
  let opened (frame : Frame) (expected : Expected) : Option Reading :=
    if reading.stack.length < maxOpen then some ⟨expected, frame :: reading.stack, .null⟩
    else none
  match token with
  | .openArray => opened (.array []) .valueOrClose
  | .openObject => opened (.object [] "") .nameOrClose
  | .scalar value => some (complete reading.stack value)
  | _ => none

def step? (reading : Reading) (token : Token) : Option Reading :=
  match reading.expected, token, reading.stack with
  | .valueOrClose, .closeArray, .array items :: rest =>
      some (complete rest (.array items.reverse))
  | .value, _, _ | .valueOrClose, _, _ => reading.takeValue? token
  | .nameOrClose, .closeObject, .object members _ :: rest =>
      some (complete rest (.object members))
  | .nameOrClose, .scalar (.string name), .object members _ :: _ =>
      some { reading with expected := .colon members name }
  | .name members, .scalar (.string name), _ =>
      some { reading with expected := .colon members name }
  | .colon members name, .colon, .object _ _ :: rest =>
      some ⟨.value, .object members name :: rest, .null⟩
  | .commaOrClose, .comma, .array _ :: _ => some { reading with expected := .value }
  | .commaOrClose, .comma, .object members _ :: _ =>
      some { reading with expected := .name members }
  | .commaOrClose, .closeArray, .array items :: rest =>
      some (complete rest (.array items.reverse))
  | .commaOrClose, .closeObject, .object members _ :: rest =>
      some (complete rest (.object members))
  | _, _, _ => none

def finish? (reading : Reading) : Option Json :=
  match reading.expected with
  | .nothing => some reading.done
  | _ => none

end Reading

def parse? (text : String) : Option Json := do
  let tokens ← Token.readAll? text.toList
  (← tokens.foldlM Reading.step? Reading.start).finish?

end SpecForm.Json
