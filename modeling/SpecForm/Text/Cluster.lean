import SpecForm.Text.ClusterTable

/-!
# Character clusters

What a reader takes for one character may be several: a letter with its accents,
a family of emoji, a flag, a syllable block.  `clusters` cuts a text into these,
by the class of each character and by what is open in the cluster before it.
-/

namespace SpecForm.Text.Cluster

inductive Kind where
  | carriageReturn | lineFeed | control
  | extending | joiner | spacing | leading | regional
  | consonant | linker | pictographic
  | initialJamo | vowelJamo | finalJamo | openSyllable | closedSyllable
  | other
  deriving DecidableEq, Repr

def between (low high : Nat) (c : Char) : Bool := low ≤ c.toNat && c.toNat ≤ high

def kindBeyondAscii (c : Char) : Kind :=
  if c = '\u200D' then .joiner
  else if ClusterTable.linker.contains c then .linker
  else if ClusterTable.extending.contains c then .extending
  else if ClusterTable.spacing.contains c then .spacing
  else if ClusterTable.control.contains c then .control
  else if ClusterTable.leading.contains c then .leading
  else if between 0x1F1E6 0x1F1FF c then .regional
  else if between 0x1100 0x115F c || between 0xA960 0xA97C c then .initialJamo
  else if between 0x1160 0x11A7 c || between 0xD7B0 0xD7C6 c then .vowelJamo
  else if between 0x11A8 0x11FF c || between 0xD7CB 0xD7FB c then .finalJamo
  else if between 0xAC00 0xD7A3 c then
    if (c.toNat - 0xAC00) % 28 = 0 then .openSyllable else .closedSyllable
  else if ClusterTable.consonant.contains c then .consonant
  else if ClusterTable.pictographic.contains c then .pictographic
  else .other

def kind (c : Char) : Kind :=
  if c = '\r' then .carriageReturn
  else if c = '\n' then .lineFeed
  else if c.toNat < 32 || c.toNat = 127 then .control
  else if c.toNat < 127 then .other
  else kindBeyondAscii c

structure Context where
  last : Kind
  /-- A pictograph followed by extending marks only. -/
  picture : Bool
  /-- Such a pictograph and then a joiner. -/
  joined : Bool
  /-- A consonant and then marks, and whether one of them is a linker. -/
  conjunct : Option Bool
  /-- An odd number of regional indicators stands last. -/
  oddRegional : Bool

def Context.start (first : Kind) : Context :=
  ⟨first, first = .pictographic, false,
    if first = .consonant then some false else none, first = .regional⟩

/-- Whether a character of kind `next` stays in the open cluster. -/
def Context.joins (context : Context) (next : Kind) : Bool :=
  match context.last, next with
  | .carriageReturn, .lineFeed => true
  | .carriageReturn, _ | .lineFeed, _ | .control, _ => false
  | _, .carriageReturn | _, .lineFeed | _, .control => false
  | .initialJamo, .initialJamo | .initialJamo, .vowelJamo
  | .initialJamo, .openSyllable | .initialJamo, .closedSyllable
  | .openSyllable, .vowelJamo | .openSyllable, .finalJamo
  | .vowelJamo, .vowelJamo | .vowelJamo, .finalJamo
  | .closedSyllable, .finalJamo | .finalJamo, .finalJamo => true
  | _, .extending | _, .linker | _, .joiner | _, .spacing => true
  | .leading, _ => true
  | _, .consonant => context.conjunct = some true
  | _, .pictographic => context.joined
  | _, .regional => context.oddRegional
  | _, _ => false

def Context.extend (context : Context) (c : Char) (next : Kind) : Context where
  last := next
  picture := next = .pictographic ||
    (context.picture && (next = .extending || next = .linker))
  joined := context.picture && next = .joiner
  conjunct :=
    match next with
    | .consonant => some false
    | .linker => context.conjunct.map fun _ => true
    | .joiner => context.conjunct
    | .extending => if c = '\u200C' then none else context.conjunct
    | _ => none
  oddRegional := next = .regional && !context.oddRegional

/-- `opened` holds the characters of the open cluster, last one first. -/
def clustersFrom (opened : List Char) (context : Context) : List Char → List (List Char)
  | [] => [opened.reverse]
  | c :: rest =>
      if context.joins (kind c) then
        clustersFrom (c :: opened) (context.extend c (kind c)) rest
      else opened.reverse :: clustersFrom [c] (Context.start (kind c)) rest

def clusters : List Char → List (List Char)
  | [] => []
  | c :: rest => clustersFrom [c] (Context.start (kind c)) rest

theorem clustersFrom_flatten (opened : List Char) (context : Context) (text : List Char) :
    (clustersFrom opened context text).flatten = opened.reverse ++ text := by
  induction text generalizing opened context with
  | nil => simp [clustersFrom]
  | cons c rest ih =>
      simp only [clustersFrom]
      split
      · simp [ih]
      · simp [ih]

/-- Cutting loses nothing. -/
theorem clusters_flatten (text : List Char) : (clusters text).flatten = text := by
  cases text with
  | nil => rfl
  | cons c rest => simp [clusters, clustersFrom_flatten]

end SpecForm.Text.Cluster
