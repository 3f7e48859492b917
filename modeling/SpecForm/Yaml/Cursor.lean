/-!
# Places in YAML text

Columns and lines matter in YAML, so the text that is still to be read is kept
with its place.  A line ends with a line feed, a carriage return, both, or one of
three Unicode line breaks, of which the last two are kept as they are.
-/

namespace SpecForm.Yaml

def isBlank (c : Char) : Bool := c = ' ' || c = '\t'

def isBreak (c : Char) : Bool :=
  c = '\n' || c = '\r' || c = '\u0085' || c = '\u2028' || c = '\u2029'

def isWordChar (c : Char) : Bool := c.isAlphanum || c = '_' || c = '-'

def isPrintable (c : Char) : Bool :=
  let n := c.toNat
  n = 0x09 || n = 0x0A || n = 0x0D || (0x20 ≤ n && n ≤ 0x7E) || n = 0x85 ||
    (0xA0 ≤ n && n ≤ 0xFFFD) || 0x10000 ≤ n

def endsWord : List Char → Bool
  | [] => true
  | c :: _ => isBlank c || isBreak c

def startsWithBreak : List Char → Bool
  | [] => false
  | c :: _ => isBreak c

def endsLine : List Char → Bool
  | [] => true
  | c :: _ => isBreak c

structure Cursor where
  rest : List Char
  index : Nat
  line : Nat
  column : Nat
  deriving Inhabited

namespace Cursor

def start (text : List Char) : Cursor := ⟨text, 0, 0, 0⟩

def skip (count : Nat) (cursor : Cursor) : Cursor :=
  { cursor with
    rest := cursor.rest.drop count
    index := cursor.index + count
    column := cursor.column + count }

def next (cursor : Cursor) : Cursor := cursor.skip 1

def peek? (cursor : Cursor) : Option Char := cursor.rest.head?

def isAt (c : Char) (cursor : Cursor) : Bool := cursor.rest.head? == some c

def skipWhile (p : Char → Bool) (cursor : Cursor) : Cursor :=
  cursor.skip (cursor.rest.takeWhile p).length

def passBreak (cursor : Cursor) : List Char × Cursor :=
  let moved (count : Nat) : Cursor :=
    ⟨cursor.rest.drop count, cursor.index + count, cursor.line + 1, 0⟩
  match cursor.rest with
  | [] => ([], cursor)
  | '\r' :: '\n' :: _ => (['\n'], moved 2)
  | c :: _ => (if c = '\u2028' || c = '\u2029' then [c] else ['\n'], moved 1)

/-- Passes over blanks, a comment and the line break after them; fails if
anything else is on the line. -/
def finishLine? (cursor : Cursor) : Option Cursor :=
  let cursor := cursor.skipWhile isBlank
  let cursor := if cursor.isAt '#' then cursor.skipWhile (!isBreak ·) else cursor
  if !endsLine cursor.rest then none
  else some (if startsWithBreak cursor.rest then cursor.passBreak.2 else cursor)

def isAtDocumentMark (cursor : Cursor) : Bool :=
  cursor.column = 0 &&
    match cursor.rest with
    | a :: b :: c :: rest => (a = '-' || a = '.') && b = a && c = a && endsWord rest
    | _ => false

end Cursor

/-! ## Gaps -/

/-- What stands between two words of a text: blanks, or a first line break and
those after it.  Blanks around line breaks are dropped. -/
structure Gap where
  blanks : List Char
  broken : Bool
  first : List Char
  more : List Char
  deriving Inhabited

namespace Gap

def none : Gap := ⟨[], false, [], []⟩

/-- A gap that starts with a line break that is not to be kept. -/
def escaped : Gap := ⟨[], true, [], []⟩

/-- What a text keeps of a gap: a single line feed becomes a space, and of
several the first is dropped. -/
def fold (gap : Gap) : List Char :=
  if !gap.broken then gap.blanks
  else if gap.first.head? = some '\n' then
    if gap.more.isEmpty then [' '] else gap.more
  else gap.first ++ gap.more

def read? (indent : Nat) : Nat → Gap → Cursor → Option (Gap × Cursor)
  | 0, gap, cursor => some (gap, cursor)
  | fuel + 1, gap, cursor =>
      match cursor.rest with
      | [] => some (gap, cursor)
      | c :: _ =>
          if isBlank c then
            if gap.broken && cursor.column < indent && c = '\t' then Option.none
            else
              read? indent fuel
                (if gap.broken then gap else { gap with blanks := gap.blanks ++ [c] }) cursor.next
          else if isBreak c then
            let (kept, cursor) := cursor.passBreak
            read? indent fuel
              (if gap.broken then { gap with more := gap.more ++ kept }
                else ⟨[], true, kept, []⟩) cursor
          else some (gap, cursor)

end Gap

end SpecForm.Yaml
