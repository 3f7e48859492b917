import SpecForm.Text.Code
import SpecForm.Yaml.Cursor

/-!
# The texts of scalars

A scalar is written plainly, in single or double quotes, or as a block of lines.
Plain and quoted texts may go over several lines, whose breaks are folded.  A
block keeps its lines, or folds those that are not indented further.
-/

namespace SpecForm.Yaml

inductive Style where
  | plain | quoted | block
  deriving DecidableEq, Repr, Inhabited

/-! ## Plain texts -/

def endsFlowText (c : Char) : Bool :=
  c = ',' || c = '[' || c = ']' || c = '\x7b' || c = '\x7d'

/-- The characters up to a blank, a line break or an indicator.  Inside brackets a
colon may not stand right before another indicator. -/
def plainRun? (inFlow : Bool) : List Char → Option (List Char)
  | [] => some []
  | c :: rest =>
      if isBlank c || isBreak c then some []
      else if inFlow && c = ':' && rest.head?.any (fun d => endsFlowText d || d = '?') then none
      else if (c = ':' && endsWord rest) || (inFlow && endsFlowText c) then some []
      else (plainRun? inFlow rest).map (c :: ·)

structure PlainText where
  text : List Char
  cursor : Cursor
  broken : Bool

def readPlainFrom? (inFlow : Bool) (indent : Nat) :
    Nat → List Char → Gap → Cursor → Option PlainText
  | 0, done, gap, cursor => some ⟨done, cursor, gap.broken⟩
  | fuel + 1, done, gap, cursor =>
      if cursor.isAtDocumentMark || cursor.isAt '#' then some ⟨done, cursor, gap.broken⟩
      else match plainRun? inFlow cursor.rest with
        | none => none
        | some run =>
            let read := if run.isEmpty then done else done ++ gap.fold ++ run
            let left := if run.isEmpty then gap else Gap.none
            let after := cursor.skip run.length
            match after.rest with
            | [] => some ⟨read, after, left.broken⟩
            | c :: _ =>
                if !(isBlank c || isBreak c) then some ⟨read, after, left.broken⟩
                else match Gap.read? indent (fuel + 1) left after with
                  | none => none
                  | some (gap, cursor) =>
                      if !inFlow && cursor.column < indent then some ⟨read, cursor, gap.broken⟩
                      else readPlainFrom? inFlow indent fuel read gap cursor

def readPlain? (fuel : Nat) (inFlow : Bool) (indent : Nat) (cursor : Cursor) :
    Option PlainText :=
  readPlainFrom? inFlow indent fuel [] Gap.none cursor

/-! ## Quoted texts -/

def simpleEscape? (c : Char) : Option Char :=
  match c with
  | '0' => some '\x00'
  | 'a' => some '\x07'
  | 'b' => some '\x08'
  | 't' | '\t' => some '\t'
  | 'n' => some '\n'
  | 'v' => some '\x0b'
  | 'f' => some '\x0c'
  | 'r' => some '\r'
  | 'e' => some '\x1b'
  | ' ' | '\x22' | '/' | '\\' => some c
  | 'N' => some '\u0085'
  | '_' => some '\u00a0'
  | 'L' => some '\u2028'
  | 'P' => some '\u2029'
  | _ => none

def codeLength? (c : Char) : Option Nat :=
  match c with
  | 'x' => some 2
  | 'u' => some 4
  | 'U' => some 8
  | _ => none

def readEscape? (text : List Char) : Option (Char × Nat) :=
  match text with
  | [] => none
  | c :: rest =>
      match simpleEscape? c with
      | some plain => some (plain, 1)
      | none => do
          let length ← codeLength? c
          let digits := rest.take length
          if digits.length < length then none
          else
            let code ← Text.charOfHex? digits
            some (code, length + 1)

/-- Reads a word inside quotes.  The gap after it is open if the word ends with an
escaped line break. -/
def readWord? (quote : Char) : Nat → List Char → Cursor → Option (List Char × Gap × Cursor)
  | 0, _, _ => none
  | fuel + 1, done, cursor =>
      match cursor.rest with
      | [] => some (done.reverse, Gap.none, cursor)
      | c :: rest =>
          if isBlank c || isBreak c then some (done.reverse, Gap.none, cursor)
          else if c = quote then
            if quote = '\x27' && rest.head? = some quote then
              readWord? quote fuel (quote :: done) (cursor.skip 2)
            else some (done.reverse, Gap.none, cursor)
          else if c = '\\' && quote ≠ '\x27' then
            if startsWithBreak rest then
              some (done.reverse, Gap.escaped, cursor.next.passBreak.2)
            else match readEscape? rest with
              | none => none
              | some (plain, length) =>
                  readWord? quote fuel (plain :: done) (cursor.skip (length + 1))
          else readWord? quote fuel (c :: done) cursor.next

def readQuotedFrom? (quote : Char) : Nat → List Char → Cursor → Option (List Char × Cursor)
  | 0, _, _ => none
  | fuel + 1, done, cursor =>
      if cursor.isAtDocumentMark || cursor.rest.isEmpty then none
      else match readWord? quote (fuel + 1) [] cursor with
        | none => none
        | some (word, gap, cursor) =>
            if cursor.isAt quote then some (done ++ word, cursor.next)
            else match Gap.read? 0 (fuel + 1) gap cursor with
              | none => none
              | some (gap, cursor) =>
                  readQuotedFrom? quote fuel (done ++ word ++ gap.fold) cursor

def readQuoted? (fuel : Nat) (quote : Char) (cursor : Cursor) : Option (List Char × Cursor) :=
  readQuotedFrom? quote fuel [] cursor.next

/-! ## Blocks -/

/-- What becomes of the line breaks at the end of a block. -/
inductive Chomping where
  | strip | clip | keep
  deriving DecidableEq, Repr

structure BlockHeader where
  chomping : Chomping
  increment : Option Nat

def chompingOf? (c : Char) : Option Chomping :=
  if c = '+' then some .keep else if c = '-' then some .strip else none

def readBlockHeader? (cursor : Cursor) : Option (BlockHeader × Cursor) :=
  let digit? (cursor : Cursor) : Option (Option Nat × Cursor) :=
    match cursor.peek? with
    | some c =>
        if c = '0' then none
        else if c.isDigit then some (some (c.toNat - '0'.toNat), cursor.next)
        else some (none, cursor)
    | none => some (none, cursor)
  match cursor.peek?.bind chompingOf? with
  | some chomping => do
      let (increment, cursor) ← digit? cursor.next
      return (⟨chomping, increment⟩, cursor)
  | none => do
      let (increment, cursor) ← digit? cursor
      match increment, cursor.peek?.bind chompingOf? with
      | some _, some chomping => return (⟨chomping, increment⟩, cursor.next)
      | _, _ => return (⟨.clip, increment⟩, cursor)

structure EmptyLines where
  breaks : List Char
  deepest : Nat
  cursor : Cursor

/-- Reads empty lines, and the indentation of the line after them.  While the
indentation of the block is not known, any number of spaces is. -/
def readEmptyLines? (indent : Option Nat) : Nat → EmptyLines → Option EmptyLines
  | 0, lines => some lines
  | fuel + 1, lines =>
      let spaces := (lines.cursor.rest.takeWhile (· = ' ')).length
      let cursor := lines.cursor.skip (match indent with
        | some indent => min spaces (indent - lines.cursor.column)
        | none => spaces)
      let deepest := max lines.deepest cursor.column
      if indent.all (cursor.column < ·) && cursor.isAt '\t' then none
      else if startsWithBreak cursor.rest then
        let (kept, cursor) := cursor.passBreak
        readEmptyLines? indent fuel ⟨lines.breaks ++ kept, deepest, cursor⟩
      else some ⟨lines.breaks, deepest, cursor⟩

/-- What has been read of a block: its text, the break after the last line, the
empty lines after that, and whether the last line began with a blank. -/
structure BlockText where
  text : List Char
  last : List Char
  breaks : List Char
  blankLine : Bool
  cursor : Cursor

def readLines? (folded : Bool) (indent : Nat) : Nat → BlockText → Option BlockText
  | 0, block => some block
  | fuel + 1, block =>
      let cursor := block.cursor
      if cursor.column ≠ indent || cursor.rest.isEmpty then some block
      else
        let blank := cursor.peek?.any isBlank
        let joint :=
          if folded && block.last.head? = some '\n' && !block.blankLine && !blank then
            if block.breaks.isEmpty then [' '] else []
          else block.last
        let line := cursor.rest.takeWhile (!isBreak ·)
        let (last, cursor) := (cursor.skip line.length).passBreak
        match readEmptyLines? (some indent) (fuel + 1) ⟨[], 0, cursor⟩ with
        | none => none
        | some lines =>
            readLines? folded indent fuel
              ⟨block.text ++ joint ++ block.breaks ++ line, last, lines.breaks, blank,
                lines.cursor⟩

def readBlock? (fuel : Nat) (parent : Int) (cursor : Cursor) :
    Option (List Char × Cursor) := do
  let folded := cursor.isAt '>'
  let (header, cursor) ← readBlockHeader? cursor.next
  let cursor ← cursor.finishLine?
  let given := header.increment.map fun increment => (max parent 0).toNat + increment
  let lines ← readEmptyLines? given fuel ⟨[], 0, cursor⟩
  let indent := given.getD (max lines.deepest (max (parent + 1) 1).toNat)
  let block ← readLines? folded indent fuel ⟨[], [], lines.breaks, false, lines.cursor⟩
  let tail := match header.chomping with
    | .strip => []
    | .clip => block.last
    | .keep => block.last ++ block.breaks
  return (block.text ++ tail, block.cursor)

end SpecForm.Yaml
