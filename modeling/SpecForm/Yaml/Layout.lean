import SpecForm.Yaml.Token

/-!
# The layout of YAML text

Outside brackets the nesting of collections is given by columns.  A mapping key
is recognised only by the colon after it, so wherever a key may begin the place
is remembered, one for each level of brackets; when the colon comes, the tokens
that announce the key are put in before it.  A key that need not be there is
forgotten at the end of the line.
-/

namespace SpecForm.Yaml

/-- A place where a key may have begun: before the token with the number
`before`.  Where a key must stand, one that turns out to be none is an error. -/
structure KeyPlace where
  isRequired : Bool
  before : Nat
  index : Nat
  line : Nat
  column : Nat
  deriving Inhabited

/-- `tokens` are kept last first, and so are `outer`, the indentations around the
current one, and `places`, one for each level of brackets and one for the text
outside all brackets. -/
structure Layout where
  cursor : Cursor
  tokens : List Token
  indent : Int
  outer : List Int
  places : List (Option KeyPlace)
  keyAllowed : Bool
  deriving Inhabited

namespace Layout

def start (text : List Char) : Layout := ⟨.start text, [], -1, [], [none], true⟩

def inFlow (layout : Layout) : Bool := 1 < layout.places.length

def column (layout : Layout) : Int := layout.cursor.column

def push (token : Token) (layout : Layout) : Layout :=
  { layout with tokens := token :: layout.tokens }

def insertAt (before : Nat) (token : Token) (layout : Layout) : Layout :=
  let (later, earlier) := layout.tokens.splitAt (layout.tokens.length - before)
  { layout with tokens := later ++ token :: earlier }

/-! ## Indentation -/

/-- Starts a block collection at a column, unless one is open there or we are
inside brackets. -/
def openBlock (column : Int) (before : Nat) (token : Token) (layout : Layout) : Layout :=
  if layout.inFlow || column ≤ layout.indent then layout
  else
    { layout with indent := column, outer := layout.indent :: layout.outer }.insertAt before token

/-- The collections that end where a line starts at `column`: how many, and the
indentations that are left. -/
def closedBlocks (column : Int) : Int → List Int → Nat × Int × List Int
  | indent, [] => (0, indent, [])
  | indent, next :: rest =>
      if column < indent then
        let (count, left) := closedBlocks column next rest
        (count + 1, left)
      else (0, indent, next :: rest)

def closeBlocks (column : Int) (layout : Layout) : Layout :=
  if layout.inFlow then layout
  else
    let (count, indent, outer) := closedBlocks column layout.indent layout.outer
    { layout with
      indent := indent
      outer := outer
      tokens := List.replicate count .blockEnd ++ layout.tokens }

/-! ## Places of keys -/

def place? (layout : Layout) : Option KeyPlace := layout.places.head?.join

def setPlace (place : Option KeyPlace) (layout : Layout) : Layout :=
  { layout with places := place :: layout.places.drop 1 }

def forgetPlace? (layout : Layout) : Option Layout :=
  if layout.place?.any KeyPlace.isRequired then none else some (layout.setPlace none)

def savePlace? (layout : Layout) : Option Layout :=
  if !layout.keyAllowed then some layout
  else
    let cursor := layout.cursor
    let place : KeyPlace :=
      ⟨!layout.inFlow && layout.indent = cursor.column, layout.tokens.length, cursor.index,
        cursor.line, cursor.column⟩
    layout.forgetPlace?.map (setPlace (some place))

/-- A key has to end on its line and within 1024 characters. -/
def isStale (cursor : Cursor) (place : KeyPlace) : Bool :=
  place.line < cursor.line || place.index + 1024 < cursor.index

def forgetStale? (layout : Layout) : Option Layout :=
  let stale (place : Option KeyPlace) : Bool := place.any (isStale layout.cursor)
  if layout.places.any (fun place => stale place && place.any KeyPlace.isRequired) then none
  else
    let places := layout.places.map fun place => if stale place then none else place
    some { layout with places := places }

/-! ## Reading tokens -/

/-- Passes over blanks, comments and line breaks.  A tab may stand only where no
key can begin. -/
def passBlanks : Nat → Layout → Layout
  | 0, layout => layout
  | fuel + 1, layout =>
      let cursor := layout.cursor
      let cursor := if cursor.column = 0 && cursor.isAt '\ufeff' then cursor.next else cursor
      let tabs := layout.inFlow || !layout.keyAllowed
      let cursor := cursor.skipWhile fun c => c = ' ' || (tabs && c = '\t')
      let cursor := if cursor.isAt '#' then cursor.skipWhile (!isBreak ·) else cursor
      if startsWithBreak cursor.rest then
        passBlanks fuel
          { layout with
            cursor := cursor.passBreak.2
            keyAllowed := layout.keyAllowed || !layout.inFlow }
      else { layout with cursor := cursor }

def take (length : Nat) (token : Token) (layout : Layout) : Layout :=
  { layout with cursor := layout.cursor.skip length }.push token

def allowKey (allowed : Bool) (layout : Layout) : Layout :=
  { layout with keyAllowed := allowed }

def moveTo (cursor : Cursor) (layout : Layout) : Layout := { layout with cursor := cursor }

/-- Ends the block collections that are open, before a directive or a mark of
documents. -/
def endDocument? (layout : Layout) : Option Layout :=
  (layout.closeBlocks (-1)).forgetPlace?.map (allowKey false)

def readDirective? (fuel : Nat) (layout : Layout) : Option Layout := do
  let layout ← layout.endDocument?
  let (token, cursor) ← Token.readDirective? fuel layout.cursor
  return (layout.moveTo cursor).push token

def readDocumentMark? (layout : Layout) : Option Layout :=
  let token := if layout.cursor.isAt '-' then Token.documentStart else Token.documentEnd
  layout.endDocument?.map (take 3 token)

def openFlow? (token : Token) (layout : Layout) : Option Layout := do
  let layout ← layout.savePlace?
  return ({ layout with places := none :: layout.places }.allowKey true).take 1 token

def closeFlow? (token : Token) (layout : Layout) : Option Layout := do
  let layout ← layout.forgetPlace?
  let places := if layout.inFlow then layout.places.drop 1 else layout.places
  return ({ layout with places := places }.allowKey false).take 1 token

def readFlowEntry? (layout : Layout) : Option Layout :=
  layout.forgetPlace?.map fun layout => (layout.allowKey true).take 1 .flowEntry

def openHere? (token : Token) (layout : Layout) : Option Layout :=
  if layout.inFlow then some layout
  else if !layout.keyAllowed then none
  else some (layout.openBlock layout.column layout.tokens.length token)

def readBlockEntry? (layout : Layout) : Option Layout := do
  let layout ← layout.openHere? .blockSequenceStart
  let layout ← layout.forgetPlace?
  return (layout.allowKey true).take 1 .blockEntry

def readKey? (layout : Layout) : Option Layout := do
  let layout ← layout.openHere? .blockMappingStart
  let layout ← layout.forgetPlace?
  return (layout.allowKey !layout.inFlow).take 1 .key

def readValue? (layout : Layout) : Option Layout :=
  match layout.place? with
  | some place =>
      let layout := layout.insertAt place.before .key
      let layout := layout.openBlock place.column place.before .blockMappingStart
      some (((layout.setPlace none).allowKey false).take 1 .value)
  | none => do
      let layout ← layout.openHere? .blockMappingStart
      return (layout.allowKey !layout.inFlow).take 1 .value

/-- Reads a token that may begin a key but after which none can begin. -/
def readWord? (read : Cursor → Option (Token × Cursor)) (layout : Layout) : Option Layout := do
  let layout ← layout.savePlace?
  let (token, cursor) ← read layout.cursor
  return ((layout.allowKey false).moveTo cursor).push token

def readBlock? (fuel : Nat) (layout : Layout) : Option Layout := do
  let layout ← layout.forgetPlace?
  let (text, cursor) ← Yaml.readBlock? fuel layout.indent layout.cursor
  return ((layout.allowKey true).moveTo cursor).push (.scalar text .block)

def readPlain? (fuel : Nat) (layout : Layout) : Option Layout := do
  let layout ← layout.savePlace?
  let plain ← Yaml.readPlain? fuel layout.inFlow (layout.indent + 1).toNat layout.cursor
  return ((layout.allowKey plain.broken).moveTo plain.cursor).push (.scalar plain.text .plain)

def isIndicator (c : Char) : Bool :=
  endsFlowText c ||
    ['#', '&', '*', '!', '|', '>', '\x27', '\x22', '%', '@', '\x60'].contains c

def startsPlain (inFlow : Bool) (c : Char) (rest : List Char) : Bool :=
  if c = '-' then !rest.head?.any isBlank
  else if c = '?' || c = ':' then !inFlow && !endsWord rest
  else !isBlank c && !isIndicator c

def readToken? (fuel : Nat) (c : Char) (rest : List Char) (layout : Layout) : Option Layout :=
  let cursor := layout.cursor
  let aloneOrFlow := layout.inFlow || endsWord rest
  if cursor.column = 0 && c = '%' then layout.readDirective? fuel
  else if cursor.isAtDocumentMark then layout.readDocumentMark?
  else if c = '[' then layout.openFlow? .flowSequenceStart
  else if c = '\x7b' then layout.openFlow? .flowMappingStart
  else if c = ']' then layout.closeFlow? .flowSequenceEnd
  else if c = '\x7d' then layout.closeFlow? .flowMappingEnd
  else if c = ',' then layout.readFlowEntry?
  else if c = '-' && endsWord rest then layout.readBlockEntry?
  else if c = '?' && aloneOrFlow then layout.readKey?
  else if c = ':' && aloneOrFlow then layout.readValue?
  else if c = '*' then
    layout.readWord? fun cursor => (Token.readName? cursor).map fun (name, after) =>
      (.alias name, after)
  else if c = '&' then
    layout.readWord? fun cursor => (Token.readName? cursor).map fun (name, after) =>
      (.anchor name, after)
  else if c = '!' then layout.readWord? (Token.readTag? fuel layout.inFlow)
  else if (c = '|' || c = '>') && !layout.inFlow then layout.readBlock? fuel
  else if c = '\x27' || c = '\x22' then
    layout.readWord? fun cursor => (readQuoted? fuel c cursor).map fun (text, after) =>
      (.scalar text .quoted, after)
  else if startsPlain layout.inFlow c rest then layout.readPlain? fuel
  else none

def readFrom? (fuel : Nat) : Nat → Layout → Option Layout
  | 0, _ => none
  | steps + 1, layout => do
      let layout ← (layout.passBlanks fuel).forgetStale?
      let layout := layout.closeBlocks layout.column
      match layout.cursor.rest with
      | [] => (layout.closeBlocks (-1)).forgetPlace?
      | c :: rest => readFrom? fuel steps (← layout.readToken? fuel c rest)

end Layout

def Token.readAll? (text : List Char) : Option (List Token) :=
  if text.all isPrintable then
    let fuel := text.length + 1
    (Layout.readFrom? fuel fuel (Layout.start text)).map fun layout => layout.tokens.reverse
  else none

end SpecForm.Yaml
