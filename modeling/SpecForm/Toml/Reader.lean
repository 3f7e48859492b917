import SpecForm.Toml.Scalar

/-!
# Reading TOML text

A text is a list of lines, each with a key and its value or with the header of
the table that the next keys belong to.
-/

namespace SpecForm.Toml

/-! ## Values -/

def skipLines : Nat → List Char → List Char
  | 0, text => text
  | fuel + 1, text =>
      match afterBreak? (skipComment (skipBlanks text)) with
      | some rest => skipLines fuel rest
      | none => skipBlanks text

def skipSpace (text : List Char) : List Char := skipLines text.length text

def splitKey? (keys : List String) : Option (List String × String) :=
  keys.getLast?.map fun key => (keys.dropLast, key)

def readItems? (readValue : Read Item) : Nat → List Item → Read (List Item)
  | 0, _, _ => none
  | fuel + 1, done, text => do
      match skipSpace text with
      | ']' :: rest => return (done.reverse, rest)
      | text => do
          let (item, rest) ← readValue text
          match skipSpace rest with
          | ',' :: rest => readItems? readValue fuel (item :: done) rest
          | ']' :: rest => return ((item :: done).reverse, rest)
          | _ => none

def readPair? (readValue : Read Item) (text : List Char) :
    Option ((List String × Item) × List Char) := do
  let (keys, rest) ← readKey? (text.length + 1) text
  let rest ← readMark? (· = '=') rest
  let (item, rest) ← readValue (skipBlanks rest)
  return ((keys, item), rest)

def readPairs? (readValue : Read Item) : Nat → Entries → Read Entries
  | 0, _, _ => none
  | fuel + 1, entries, text => do
      let ((keys, item), rest) ← readPair? readValue text
      let (path, key) ← splitKey? keys
      let entries ← entries.set? path key item
      match skipBlanks rest with
      | ',' :: rest => readPairs? readValue fuel entries rest
      | '\x7d' :: rest => return (entries, rest)
      | _ => none

def maxDepth : Nat := 80

def readValue? : Nat → Read Item
  | depth, text =>
      match text, depth with
      | '[' :: rest, depth + 1 =>
          (readItems? (readValue? depth) (rest.length + 1) [] rest).map fun (items, rest) =>
            (.array items, rest)
      | '\x7b' :: rest, depth + 1 =>
          match skipBlanks rest with
          | '\x7d' :: rest => some (.inline [], rest)
          | text =>
              (readPairs? (readValue? depth) (text.length + 1) [] text).map
                fun (entries, rest) => (.inline entries, rest)
      | 't' :: 'r' :: 'u' :: 'e' :: rest, _ => some (.boolean true, rest)
      | 'f' :: 'a' :: 'l' :: 's' :: 'e' :: rest, _ => some (.boolean false, rest)
      | text, _ =>
          if text.head?.any fun c => c = '\x22' || c = '\x27' then
            (readString? text).map fun (text, rest) => (.string text, rest)
          else match readMoment? text with
            | some read => some read
            | none => readNumber? text

/-! ## Lines -/

/-- `place` is the path of the table that was opened last. -/
structure Reading where
  entries : Entries
  place : List String
  deriving Inhabited

def readHeader? (reading : Reading) (text : List Char) : Option (Reading × List Char) := do
  let double := text.take 2 = ['[', '[']
  let (keys, rest) ← readKey? (text.length + 1) (text.drop (if double then 2 else 1))
  let rest ← readMark? (· = ']') rest
  let rest ← if double then readMark? (· = ']') rest else some rest
  let (path, key) ← splitKey? keys
  let entries ←
    if double then reading.entries.addTable? path key else reading.entries.openTable? path key
  return (⟨entries, keys⟩, rest)

def readLine? (reading : Reading) (text : List Char) : Option (Reading × List Char) := do
  let (reading, rest) ←
    if text.head? = some '[' then readHeader? reading text
    else do
      let ((keys, item), rest) ← readPair? (readValue? maxDepth) text
      let (path, key) ← splitKey? keys
      let entries ← reading.entries.setIn? reading.place path key item
      some ({ reading with entries := entries }, rest)
  return (reading, ← endLine? rest)

def readLines? : Nat → Reading → List Char → Option Reading
  | 0, _, _ => none
  | fuel + 1, reading, text =>
      match skipComment (skipBlanks text) with
      | [] => some reading
      | _ =>
          match endLine? text with
          | some rest => readLines? fuel reading rest
          | none => do
              let (reading, rest) ← readLine? reading (skipBlanks text)
              readLines? fuel reading rest

/-- The top table of a text.  A byte order mark may stand in front. -/
def parse? (text : String) : Option Entries :=
  let text := match text.toList with
    | '\ufeff' :: rest => rest
    | text => text
  (readLines? (text.length + 1) ⟨[], []⟩ text).map Reading.entries

end SpecForm.Toml
