import SpecForm.Text.Cut
import SpecForm.Text.Percent
import SpecForm.Uri.Basic

/-!
# Paths of URIs

The path of a URI is read segment by segment onto a path that may already hold
segments of a base URI.  A `.` segment adds nothing and a `..` segment takes the
last one away.  In `file` URIs a drive letter such as `C:` at the start is never
taken away.
-/

namespace SpecForm.Uri

open Text

def isControl (c : Char) : Bool := c.toNat < 32 || 126 < c.toNat

def escapedInFragment (c : Char) : Bool :=
  isControl c || c = ' ' || c = '\x22' || c = '<' || c = '>' || c = '\x60'

def escapedInPath (c : Char) : Bool :=
  escapedInFragment c || c = '#' || c = '?' || c = '\x7b' || c = '\x7d'

/-- Inside one segment that is no URI text yet. -/
def escapedInSegment (c : Char) : Bool :=
  escapedInPath c || c = '/' || c = '%' || c = '\\'

def escapedInUserinfo (c : Char) : Bool :=
  escapedInPath c || ['/', ':', ';', '=', '@', '[', '\\', ']', '^', '|'].contains c

def escapedInQuery (kind : SchemeKind) (c : Char) : Bool :=
  isControl c || c = ' ' || c = '\x22' || c = '#' || c = '<' || c = '>' ||
    (kind.isSpecial && c = '\x27')

/-! ## Drive letters -/

def isDriveLetter : List Char → Bool
  | [a, b] => a.isAlpha && (b = ':' || b = '|')
  | _ => false

def isNormalDriveLetter : List Char → Bool
  | [a, b] => a.isAlpha && b = ':'
  | _ => false

def startsWithDrive : List Char → Bool
  | [a, b] => a.isAlpha && (b = ':' || b = '|')
  | a :: b :: c :: _ =>
      a.isAlpha && (b = ':' || b = '|') && (c = '/' || c = '\\' || c = '?' || c = '#')
  | _ => false

/-! ## Segments -/

def isSingleDot (segment : List Char) : Bool :=
  ["." , "%2e", "%2E"].any (·.toList == segment)

def isDoubleDot (segment : List Char) : Bool :=
  ["..", "%2e%2e", "%2e%2E", "%2E%2e", "%2E%2E", "%2e.", "%2E.", ".%2e", ".%2E"].any
    (·.toList == segment)

def endsWithSlash (path : List Char) : Bool := path.getLast? == some '/'

def withSlash (path : List Char) : List Char :=
  if endsWithSlash path then path else path ++ ['/']

/-- Takes away what follows the last slash, which stays, unless that is the
drive letter of a file. -/
def popSegment (kind : SchemeKind) (path : List Char) : List Char :=
  match cutLast? '/' path with
  | some (front, segment) =>
      if kind = .file && isNormalDriveLetter segment then path else front ++ ['/']
  | none => path

/-- Whether the slash at the end of a path may go so that the segment before it
can be taken away: there is such a segment, and it is no drive letter. -/
def slashCanGo (path : List Char) : Bool :=
  match cutLast? '/' path.dropLast with
  | some (_, segment) => !startsWithDrive (segment ++ ['/'])
  | none => false

def shorten (kind : SchemeKind) (path : List Char) : List Char :=
  let path := if endsWithSlash path && slashCanGo path then path.dropLast else path
  if path.isEmpty || (kind = .file && isNormalDriveLetter path) then path
  else popSegment kind path

structure PathState where
  path : List Char
  dropsHost : Bool

def addSegment (kind : SchemeKind) (state : PathState) (raw : List Char) (slash : Bool) :
    PathState :=
  let path :=
    if kind = .file && !raw.isEmpty && isNormalDriveLetter (state.path.drop 1) then
      state.path ++ ['/']
    else state.path
  let segment := Percent.encode escapedInPath raw
  if isDoubleDot segment then
    let shorter := shorten kind path
    { state with path := if slash then withSlash shorter else shorter }
  else if isSingleDot segment then { state with path := withSlash path }
  else
    let tail := if slash then ['/'] else []
    match segment with
    | letter :: _ =>
        if kind = .file && path.length = 1 && isDriveLetter segment then
          { path := path ++ [letter, ':'] ++ tail, dropsHost := true }
        else { state with path := path ++ segment ++ tail }
    | [] => { state with path := path ++ tail }

def endsPath (c : Char) : Bool := c = '?' || c = '#'

def endsSegment (kind : SchemeKind) (c : Char) : Bool :=
  c = '/' || (kind.isSpecial && c = '\\')

/-- Reads a path to its end; `raw` is the open segment, its last character
first.  Returns the rest, which is empty or starts with `?` or `#`. -/
def readSegments (kind : SchemeKind) (state : PathState) (raw : List Char) :
    List Char → PathState × List Char
  | [] => (addSegment kind state raw.reverse false, [])
  | c :: rest =>
      if endsPath c then (addSegment kind state raw.reverse false, c :: rest)
      else if endsSegment kind c then
        readSegments kind (addSegment kind state raw.reverse true) [] rest
      else readSegments kind state (c :: raw) rest

def readPath (kind : SchemeKind) (start text : List Char) : PathState × List Char :=
  let (state, rest) := readSegments kind ⟨start, false⟩ [] text
  if kind = .file then
    ({ state with path := '/' :: state.path.dropWhile (· = '/') }, rest)
  else (state, rest)

def readPathStart (kind : SchemeKind) (text : List Char) : PathState × List Char :=
  match kind, text with
  | .other, [] => (⟨[], false⟩, [])
  | .other, c :: rest =>
      if endsPath c then (⟨[], false⟩, c :: rest)
      else if c = '/' then readPath kind [] (c :: rest)
      else readPath kind ['/'] (c :: rest)
  | _, '/' :: rest => readPath kind ['/'] rest
  | _, '\\' :: rest => readPath kind ['/'] rest
  | _, _ => readPath kind ['/'] text

end SpecForm.Uri
