import SpecForm.Yaml.Token

/-!
# Trees of YAML text

The tokens of a document form a tree of scalars, sequences and mappings.  An
anchor gives a node a number and an alias stands for a number.  The number of an
anchor is the count of different names before it, so where names are declared
again two anchors may get the same number; the later node then takes it, for
every alias.
-/

namespace SpecForm.Yaml

inductive Tree where
  | alias (number : Nat)
  | scalar (text : List Char) (style : Style) (tag : Option (List Char))
  | sequence (tag : Option (List Char)) (items : List Tree)
  | mapping (tag : Option (List Char)) (entries : List (Tree × Tree))
  deriving Inhabited

namespace Tree

def empty : Tree := .scalar [] .plain none

def setTag (tag : Option (List Char)) : Tree → Tree
  | .alias number => .alias number
  | .scalar text style _ => .scalar text style tag
  | .sequence _ items => .sequence tag items
  | .mapping _ entries => .mapping tag entries

end Tree

structure Anchored where
  number : Nat
  start : Nat
  tree : Tree
  deriving Inhabited

/-- The tree of a text with its anchored nodes.  A collection makes two events,
any other node one. -/
structure Document where
  root : Tree
  anchored : List Anchored
  events : Nat
  deriving Inhabited

namespace Document

def anchored? (number : Nat) (document : Document) : Option Tree :=
  let latest := document.anchored.foldl (fun best node =>
    if node.number = number && best.all (fun old => old.start < node.start) then some node
    else best) none
  latest.map Anchored.tree

end Document

/-! ## Reading -/

/-- What has been read: the tokens that are left, the numbers that the names of
anchors have now, and the meaning of the handles of tags. -/
structure Composing where
  tokens : List Token
  numbers : List (List Char × Nat)
  anchored : List Anchored
  events : Nat
  handles : List (List Char × List Char)
  deriving Inhabited

abbrev Compose := StateT Composing Option

namespace Compose

def peek? : Compose (Option Token) := do return (← get).tokens.head?

def drop : Compose Unit :=
  modify fun state => { state with tokens := state.tokens.drop 1 }

def countEvents (count : Nat) : Compose Unit :=
  modify fun state => { state with events := state.events + count }

def isNext (tokens : List Token) : Compose Bool := do return (← peek?).any tokens.contains

def accept (token : Token) : Compose Bool := do
  if ← isNext [token] then
    drop
    return true
  else return false

def emptyNode : Compose Tree := do
  countEvents 1
  return .empty

/-! ## Anchors and tags -/

def declare (name : List Char) (numbers : List (List Char × Nat)) :
    List (List Char × Nat) × Nat :=
  let number := numbers.length
  ((name, number) :: numbers.filter (fun entry => entry.1 ≠ name), number)

def meaning? (handles : List (List Char × List Char)) (handle rest : List Char) :
    Option (List Char) :=
  if handle.isEmpty then some rest else (handles.lookup handle).map (· ++ rest)

structure Properties where
  anchor : Option (List Char)
  tag : Option (List Char)

def readAnchor : Compose (Option (List Char)) := do
  match ← peek? with
  | some (.anchor name) =>
      drop
      return some name
  | _ => return none

def readTag : Compose (Option (List Char)) := do
  match ← peek? with
  | some (.tag handle rest) =>
      drop
      return some (← meaning? (← get).handles handle rest)
  | _ => return none

def readProperties : Compose Properties := do
  match ← readAnchor with
  | some name => return ⟨some name, ← readTag⟩
  | none =>
      match ← readTag with
      | some tag => return ⟨← readAnchor, some tag⟩
      | none => return ⟨none, none⟩

def anchoring (anchor : Option (List Char)) (node : Compose Tree) : Compose Tree :=
  match anchor with
  | none => node
  | some name => do
      let state ← get
      let (numbers, number) := declare name state.numbers
      set { state with numbers := numbers }
      let tree ← node
      modify fun later =>
        { later with anchored := ⟨number, state.events, tree⟩ :: later.anchored }
      return tree

/-! ## Nodes -/

def readAlias (name : List Char) : Compose Tree := do
  drop
  countEvents 1
  return .alias (← (← get).numbers.lookup name)

def readScalar (text : List Char) (style : Style) (tag : Option (List Char)) :
    Compose Tree := do
  drop
  countEvents 1
  return .scalar text style (tag.filter (· ≠ ['!']))

inductive Kind where
  | blockSequence | indentlessSequence | blockMapping | flowSequence | flowMapping
  deriving DecidableEq

/-- The kind of the collection that starts at `token`.  A block collection may stand
only where `inBlock` holds, and a sequence that is not indented only as a key or
a value of a block mapping. -/
def kind? (inBlock indentless : Bool) (token : Token) : Option Kind :=
  match token with
  | .flowSequenceStart => some .flowSequence
  | .flowMappingStart => some .flowMapping
  | .blockEntry => if indentless then some .indentlessSequence else none
  | .blockSequenceStart => if inBlock then some .blockSequence else none
  | .blockMappingStart => if inBlock then some .blockMapping else none
  | _ => none

mutual

def readNode (inBlock indentless : Bool) : Nat → Compose Tree
  | 0 => failure
  | fuel + 1 => do
      if let some (.alias name) ← peek? then readAlias name
      else
        let properties ← readProperties
        anchoring properties.anchor do
          match ← peek? with
          | some (.scalar text style) => readScalar text style properties.tag
          | token =>
              match token.bind (kind? inBlock indentless) with
              | some kind =>
                  countEvents 1
                  if kind ≠ .indentlessSequence then drop
                  let tree ← readCollection kind fuel
                  countEvents 1
                  return tree.setTag properties.tag
              | none =>
                  if properties.anchor.isSome || properties.tag.isSome then
                    return (← emptyNode).setTag properties.tag
                  else failure

def readCollection (kind : Kind) : Nat → Compose Tree
  | 0 => failure
  | fuel + 1 => do
      match kind with
      | .blockSequence => return .sequence none (← readBlockItems fuel)
      | .indentlessSequence => return .sequence none (← readIndentlessItems fuel)
      | .blockMapping => return .mapping none (← readBlockEntries fuel)
      | .flowSequence => return .sequence none (← readFlowItems true fuel)
      | .flowMapping => return .mapping none (← readFlowEntries true fuel)

def readUnless (tokens : List Token) (inBlock indentless : Bool) : Nat → Compose Tree
  | 0 => failure
  | fuel + 1 => do
      if ← isNext tokens then emptyNode else readNode inBlock indentless fuel

def readAfter (token : Token) (tokens : List Token) (inBlock indentless : Bool) :
    Nat → Compose Tree
  | 0 => failure
  | fuel + 1 => do
      if ← accept token then readUnless tokens inBlock indentless fuel else emptyNode

def readBlockItems : Nat → Compose (List Tree)
  | 0 => failure
  | fuel + 1 => do
      if ← accept .blockEntry then
        let item ← readUnless [.blockEntry, .blockEnd] true false fuel
        return item :: (← readBlockItems fuel)
      else if ← accept .blockEnd then return []
      else failure

def readIndentlessItems : Nat → Compose (List Tree)
  | 0 => failure
  | fuel + 1 => do
      if ← accept .blockEntry then
        let item ← readUnless [.blockEntry, .key, .value, .blockEnd] true false fuel
        return item :: (← readIndentlessItems fuel)
      else return []

def readBlockEntries : Nat → Compose (List (Tree × Tree))
  | 0 => failure
  | fuel + 1 => do
      if ← accept .key then
        let key ← readUnless [.key, .value, .blockEnd] true true fuel
        let value ← readAfter .value [.key, .value, .blockEnd] true true fuel
        return (key, value) :: (← readBlockEntries fuel)
      else if ← accept .blockEnd then return []
      else failure

def readFlowItems (first : Bool) : Nat → Compose (List Tree)
  | 0 => failure
  | fuel + 1 => do
      if ← accept .flowSequenceEnd then return []
      else
        unless first do
          unless ← accept .flowEntry do failure
        if ← accept .flowSequenceEnd then return []
        else
          let item ← if ← accept .key then readPair fuel else readNode false false fuel
          return item :: (← readFlowItems false fuel)

/-- Reads a mapping of one entry without brackets.  A token in the place of its key is
passed over. -/
def readPair : Nat → Compose Tree
  | 0 => failure
  | fuel + 1 => do
      countEvents 1
      let key ←
        if ← isNext [.value, .flowEntry, .flowSequenceEnd] then
          drop
          emptyNode
        else readNode false false fuel
      let value ← readAfter .value [.flowEntry, .flowSequenceEnd] false false fuel
      countEvents 1
      return .mapping none [(key, value)]

def readFlowEntries (first : Bool) : Nat → Compose (List (Tree × Tree))
  | 0 => failure
  | fuel + 1 => do
      if ← accept .flowMappingEnd then return []
      else
        unless first do
          unless ← accept .flowEntry do failure
        if ← accept .flowMappingEnd then return []
        else if ← accept .key then
          let key ← readUnless [.value, .flowEntry, .flowMappingEnd] false false fuel
          let value ← readAfter .value [.flowEntry, .flowMappingEnd] false false fuel
          return (key, value) :: (← readFlowEntries false fuel)
        else
          let key ← readNode false false fuel
          let value ← emptyNode
          return (key, value) :: (← readFlowEntries false fuel)

end

/-! ## Documents -/

def isDirective : Token → Bool
  | .version _ _ | .tagHandle _ _ => true
  | _ => false

/-- Reads directives; only one may give the version, and one each handle. -/
def readDirectives (versioned : Bool) (handles : List (List Char × List Char)) :
    List Token → Option (List (List Char × List Char) × List Token)
  | .version major minor :: rest =>
      if versioned || major ≠ 1 || (minor ≠ 1 && minor ≠ 2) then none
      else readDirectives true handles rest
  | .tagHandle handle start :: rest =>
      if (handles.lookup handle).isSome then none
      else readDirectives versioned ((handle, start) :: handles) rest
  | rest => some (handles, rest)

def commonHandles : List (List Char × List Char) :=
  [(['!'], ['!']), (['!', '!'], "tag:yaml.org,2002:".toList)]

/-- Reads the root; after a mark of the start of a document it may be left out. -/
def readRoot (fuel : Nat) : Compose Tree := do
  if (← peek?).any (fun token => isDirective token || token = .documentStart) then
    let (handles, rest) ← readDirectives false [] (← get).tokens
    modify fun state => { state with tokens := rest, handles := handles ++ commonHandles }
    unless ← accept .documentStart do failure
    let next ← peek?
    if next.all fun token =>
        isDirective token || token = .documentStart || token = .documentEnd then
      emptyNode
    else readNode true false fuel
  else readNode true false fuel

def readDocument (fuel : Nat) : Compose Document := do
  let root ← readRoot fuel
  let state ← get
  if state.tokens.all (· = .documentEnd) then
    return ⟨root, state.anchored, state.events⟩
  else failure

end Compose

/-- The document of some tokens; a text without tokens is an empty scalar. -/
def Document.ofTokens? (tokens : List Token) : Option Document :=
  if tokens.isEmpty then some ⟨.empty, [], 1⟩
  else
    (Compose.readDocument (4 * tokens.length + 8)).run'
      ⟨tokens, [], [], 0, Compose.commonHandles⟩

end SpecForm.Yaml
