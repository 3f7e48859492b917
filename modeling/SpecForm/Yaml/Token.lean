import SpecForm.Yaml.Text

/-!
# Tokens of YAML text

Besides the indicators there are tokens for the start and the end of block
collections, which come from indentation.  Directives, anchors and tags are read
here; the order of the tokens is the matter of the layout.
-/

namespace SpecForm.Yaml

inductive Token where
  | version (major minor : Nat)
  | tagHandle (handle start : List Char)
  | documentStart | documentEnd
  | blockSequenceStart | blockMappingStart | blockEnd
  | flowSequenceStart | flowSequenceEnd | flowMappingStart | flowMappingEnd
  | blockEntry | flowEntry | key | value
  | alias (name : List Char)
  | anchor (name : List Char)
  | tag (handle rest : List Char)
  | scalar (text : List Char) (style : Style)
  deriving DecidableEq, Repr, Inhabited

namespace Token

/-! ## Anchors -/

def mayFollowAnchor (rest : List Char) : Bool :=
  endsWord rest ||
    rest.head?.any fun c =>
      ['?', ':', ',', ']', '\x7d', '%', '@', '\x60'].contains c

def readName? (cursor : Cursor) : Option (List Char × Cursor) :=
  let name := cursor.next.rest.takeWhile isWordChar
  let after := cursor.next.skip name.length
  if name.isEmpty || !mayFollowAnchor after.rest then none else some (name, after)

/-! ## Tags -/

def isTagChar (verbatim : Bool) (c : Char) : Bool :=
  isWordChar c ||
    [';', '/', '?', ':', '@', '&', '=', '+', '$', '.', '%', '!', '~', '*', '\x27', '(', ')'].contains c ||
    (verbatim && [',', '[', ']'].contains c)

def escapedByte? : List Char → Option (Nat × List Char)
  | '%' :: a :: b :: rest => do
      let high ← Text.Percent.hexValue? a
      let low ← Text.Percent.hexValue? b
      return (16 * high + low, rest)
  | _ => none

def followers? (byte : Nat) : Option Nat :=
  if byte < 0x80 then some 0
  else if 0xC0 ≤ byte && byte < 0xE0 then some 1
  else if 0xE0 ≤ byte && byte < 0xF0 then some 2
  else if 0xF0 ≤ byte && byte < 0xF8 then some 3
  else none

def readFollowers? (code : Nat) : Nat → List Char → Option (Nat × List Char)
  | 0, text => some (code, text)
  | count + 1, text => do
      let (byte, rest) ← escapedByte? text
      if 0x80 ≤ byte && byte < 0xC0 then
        readFollowers? (64 * code + (byte - 0x80)) count rest
      else none

def readEscaped? (text : List Char) : Option (Char × List Char) := do
  let (byte, rest) ← escapedByte? text
  let count ← followers? byte
  let first := match count with
    | 0 => byte
    | 1 => byte - 0xC0
    | 2 => byte - 0xE0
    | _ => byte - 0xF0
  let (code, rest) ← readFollowers? first count rest
  return (Char.ofNat code, rest)

def readTagText? (verbatim : Bool) : Nat → List Char → List Char → Option (List Char × List Char)
  | 0, done, text => some (done.reverse, text)
  | fuel + 1, done, text =>
      match text with
      | [] => some (done.reverse, [])
      | c :: rest =>
          if c = '%' then
            match readEscaped? text with
            | some (plain, rest) => readTagText? verbatim fuel (plain :: done) rest
            | none => none
          else if isTagChar verbatim c then readTagText? verbatim fuel (c :: done) rest
          else some (done.reverse, text)

def moveTo (cursor : Cursor) (rest : List Char) : Cursor :=
  cursor.skip (cursor.rest.length - rest.length)

def readTagUri? (fuel : Nat) (verbatim : Bool) (cursor : Cursor) :
    Option (List Char × Cursor) := do
  let (text, rest) ← readTagText? verbatim fuel [] cursor.rest
  return (text, moveTo cursor rest)

/-- Reads `!`, `!!` or `!name!`; anything else that starts with `!` is read up to
where it stops to be one of them. -/
def readHandle (cursor : Cursor) : List Char × Cursor :=
  let name := cursor.next.rest.takeWhile isWordChar
  let after := cursor.next.skip name.length
  if after.isAt '!' then ('!' :: name ++ ['!'], after.next) else ('!' :: name, after)

/-- Reads a tag: verbatim in angle brackets, or a handle with the rest.  A single
`!` has no handle. -/
def readTag? (fuel : Nat) (inFlow : Bool) (cursor : Cursor) : Option (Token × Cursor) := do
  let (token, cursor) ←
    if cursor.next.isAt '<' then do
      let (text, after) ← readTagUri? fuel true (cursor.skip 2)
      if text.isEmpty || !after.isAt '>' then none
      else some (Token.tag [] text, after.next)
    else
      let (handle, after) := readHandle cursor
      if 1 < handle.length && handle.getLast? = some '!' then do
        let (text, after) ← readTagUri? fuel false after
        if text.isEmpty then none else some (Token.tag handle text, after)
      else do
        let (text, after) ← readTagUri? fuel false after
        let text := handle.drop 1 ++ text
        if text.isEmpty then some (Token.tag [] ['!'], after)
        else some (Token.tag ['!'] text, after)
  if endsWord cursor.rest || (inFlow && cursor.isAt ',') then some (token, cursor) else none

/-! ## Directives -/

def readVersionPart? (cursor : Cursor) : Option (Nat × Cursor) :=
  let digits := cursor.rest.takeWhile (·.isDigit)
  if digits.isEmpty || 9 < digits.length then none
  else some (digits.foldl (fun n c => 10 * n + (c.toNat - '0'.toNat)) 0, cursor.skip digits.length)

def readVersion? (cursor : Cursor) : Option (Token × Cursor) := do
  let (major, cursor) ← readVersionPart? (cursor.skipWhile isBlank)
  if !cursor.isAt '.' then none
  else
    let (minor, cursor) ← readVersionPart? cursor.next
    some (.version major minor, cursor)

def readTagHandle? (fuel : Nat) (cursor : Cursor) : Option (Token × Cursor) := do
  let cursor := cursor.skipWhile isBlank
  if !cursor.isAt '!' then none
  else
    let (handle, after) := readHandle cursor
    if handle ≠ ['!'] && handle.getLast? ≠ some '!' then none
    else if !after.rest.head?.any isBlank then none
    else
      let (text, after) ← readTagUri? fuel true (after.skipWhile isBlank)
      if text.isEmpty || !endsWord after.rest then none
      else some (.tagHandle handle text, after)

def readDirective? (fuel : Nat) (cursor : Cursor) : Option (Token × Cursor) := do
  let name := cursor.next.rest.takeWhile isWordChar
  let after := cursor.next.skip name.length
  if !endsWord after.rest then none
  else
    let (token, after) ←
      if name = "YAML".toList then readVersion? after
      else if name = "TAG".toList then readTagHandle? fuel after
      else none
    let after ← after.finishLine?
    some (token, after)

end Token

end SpecForm.Yaml
