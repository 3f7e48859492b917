import SpecForm.Decimal.Numeral
import SpecForm.Text.Code
import SpecForm.Toml.Item

/-!
# Keys and scalars of TOML

Every reader takes the text that is left and returns what it read with the text
after it, or nothing if the text is no TOML.
-/

namespace SpecForm.Toml

abbrev Read (α : Type) := List Char → Option (α × List Char)

def isBlank (c : Char) : Bool := c = ' ' || c = '\t'

def isPlain (c : Char) : Bool := c = '\t' || (0x20 ≤ c.toNat && c.toNat ≠ 0x7F)

def skipBlanks (text : List Char) : List Char := text.dropWhile isBlank

def skipComment (text : List Char) : List Char :=
  if text.head? = some '#' then text.dropWhile isPlain else text

def afterBreak? : List Char → Option (List Char)
  | '\n' :: rest => some rest
  | '\r' :: '\n' :: rest => some rest
  | _ => none

def endLine? (text : List Char) : Option (List Char) :=
  match skipComment (skipBlanks text) with
  | [] => some []
  | rest => afterBreak? rest

/-! ## Strings -/

def simpleEscape? (c : Char) : Option Char :=
  match c with
  | 'b' => some '\x08'
  | 't' => some '\t'
  | 'n' => some '\n'
  | 'f' => some '\x0c'
  | 'r' => some '\r'
  | '\x22' | '\\' => some c
  | _ => none

def readEscape? : Read Char
  | [] => none
  | c :: rest =>
      match simpleEscape? c with
      | some plain => some (plain, rest)
      | none =>
          let length := if c = 'u' then 4 else if c = 'U' then 8 else 0
          let digits := rest.take length
          if length = 0 || digits.length < length then none
          else (Text.charOfHex? digits).map fun plain => (plain, rest.drop length)

def readShort? (quote : Char) : Nat → List Char → Read (List Char)
  | 0, _, _ => none
  | _, _, [] => none
  | fuel + 1, done, c :: rest =>
      if c = quote then some (done.reverse, rest)
      else if c = '\\' && quote = '\x22' then
        match readEscape? rest with
        | some (plain, rest) => readShort? quote fuel (plain :: done) rest
        | none => none
      else if isPlain c then readShort? quote fuel (c :: done) rest
      else none

/-- The text after an escaped line break: blanks and line breaks are dropped. -/
def afterEscapedBreak? (text : List Char) : Option (List Char) :=
  let rec dropGap : Nat → List Char → List Char
    | 0, text => text
    | fuel + 1, text =>
        match afterBreak? (skipBlanks text) with
        | some rest => dropGap fuel rest
        | none => skipBlanks text
  (afterBreak? (skipBlanks text)).map fun rest => dropGap rest.length rest

/-- Reads a string of several lines up to its three closing quotes, which up to two
quotes of the string may precede. -/
def readLong? (quote : Char) : Nat → List Char → Read (List Char)
  | 0, _, _ => none
  | _, _, [] => none
  | fuel + 1, done, c :: rest =>
      if c = quote then
        let count := ((c :: rest).takeWhile (· = quote)).length
        if 3 ≤ count then
          let kept := min (count - 3) 2
          some (done.reverse ++ List.replicate kept quote, (c :: rest).drop (kept + 3))
        else readLong? quote fuel (c :: done) rest
      else if c = '\\' && quote = '\x22' then
        match afterEscapedBreak? rest with
        | some rest => readLong? quote fuel done rest
        | none =>
            match readEscape? rest with
            | some (plain, rest) => readLong? quote fuel (plain :: done) rest
            | none => none
      else match afterBreak? (c :: rest) with
        | some rest => readLong? quote fuel ('\n' :: done) rest
        | none => if isPlain c then readLong? quote fuel (c :: done) rest else none

def readQuoted? : Read String
  | c :: rest =>
      if c = '\x22' || c = '\x27' then
        (readShort? c (rest.length + 1) [] rest).map fun (text, rest) => (String.ofList text, rest)
      else none
  | [] => none

/-- Reads a string of either kind.  A line break right after three quotes is
dropped. -/
def readString? : Read String
  | a :: b :: c :: rest =>
      if (a = '\x22' || a = '\x27') && b = a && c = a then
        let body := (afterBreak? rest).getD rest
        (readLong? a (body.length + 1) [] body).map fun (text, rest) => (String.ofList text, rest)
      else readQuoted? (a :: b :: c :: rest)
  | text => readQuoted? text

/-! ## Keys -/

def isBareKey (c : Char) : Bool := c.isAlphanum || c = '-' || c = '_'

def readSimpleKey? (text : List Char) : Option (String × List Char) :=
  match text.takeWhile isBareKey with
  | [] => readQuoted? text
  | key => some (String.ofList key, text.drop key.length)

def readKey? : Nat → Read (List String)
  | 0, _ => none
  | fuel + 1, text => do
      let (key, rest) ← readSimpleKey? (skipBlanks text)
      match skipBlanks rest with
      | '.' :: rest => do
          let (keys, rest) ← readKey? fuel rest
          return (key :: keys, rest)
      | rest => return ([key], rest)

/-! ## Numbers -/

def readDigits? (isDigit : Char → Bool) : Nat → Read (List Char)
  | 0, _ => none
  | fuel + 1, text =>
      match text.takeWhile isDigit with
      | [] => none
      | digits =>
          match text.drop digits.length with
          | '_' :: rest => do
              let (more, rest) ← readDigits? isDigit fuel rest
              return (digits ++ more, rest)
          | rest => some (digits, rest)

def readDecimals? (text : List Char) : Option (List Char × List Char) :=
  readDigits? (·.isDigit) (text.length + 1) text

def isHeld (n : Int) : Bool := -0x8000000000000000 ≤ n && n < 0x8000000000000000

def readBased? (base : Nat) (text : List Char) : Option (Item × List Char) := do
  let isDigit (c : Char) : Bool := (Text.Percent.hexValue? c).any (· < base)
  let (digits, rest) ← readDigits? isDigit (text.length + 1) text
  let n ← Decimal.magnitude? base digits
  if isHeld n then some (.integer n, rest) else none

def readFloat? (sign whole text : List Char) : Option (Item × List Char) := do
  let (fraction, rest) ←
    match text with
    | '.' :: rest => (readDecimals? rest).map fun (digits, rest) => ('.' :: digits, rest)
    | _ => some ([], text)
  let (exponent, rest) ←
    match rest with
    | e :: rest =>
        if e = 'e' || e = 'E' then do
          let mark := rest.takeWhile Decimal.isSign |>.take 1
          let (digits, rest) ← readDecimals? (rest.drop mark.length)
          some ('e' :: mark ++ digits, rest)
        else some ([], e :: rest)
    | [] => some ([], [])
  let value ← Decimal.nearest? (sign ++ whole ++ fraction ++ exponent)
  if value.isFinite || sign = ['-'] then some (.float value, rest) else none

/-- Reads a number; a whole part does not start with a zero unless it is zero. -/
def readNumber? (text : List Char) : Option (Item × List Char) :=
  let sign := (text.takeWhile Decimal.isSign).take 1
  let text := text.drop sign.length
  let negate (n : Nat) : Int := if sign = ['-'] then -n else n
  match text with
  | 'i' :: 'n' :: 'f' :: rest =>
      let infinity := Float.ofBits (UInt64.ofNat Decimal.infinityBits)
      some (.float (if sign = ['-'] then -infinity else infinity), rest)
  | 'n' :: 'a' :: 'n' :: rest => some (.float (0.0 / 0.0), rest)
  | '0' :: 'x' :: rest => if sign = [] then readBased? 16 rest else none
  | '0' :: 'o' :: rest => if sign = [] then readBased? 8 rest else none
  | '0' :: 'b' :: rest => if sign = [] then readBased? 2 rest else none
  | _ => do
      let (whole, rest) ←
        match text with
        | '0' :: rest => some (['0'], rest)
        | _ => readDecimals? text
      if rest.head?.any fun c => c = '.' || c = 'e' || c = 'E' then readFloat? sign whole rest
      else
        let n ← Decimal.magnitude? 10 whole
        if isHeld (negate n) then some (.integer (negate n), rest) else none

/-! ## Dates and times -/

def readField? (count low high : Nat) (text : List Char) : Option (Nat × List Char) := do
  let digits := text.take count
  let n ← Decimal.magnitude? 10 digits
  if digits.length = count && low ≤ n && n ≤ high then some (n, text.drop count) else none

def readMark? (mark : Char → Bool) : List Char → Option (List Char)
  | c :: rest => if mark c then some rest else none
  | [] => none

def daysIn (year month : Nat) : Nat :=
  if month = 2 then
    if year % 4 = 0 && (year % 100 ≠ 0 || year % 400 = 0) then 29 else 28
  else if [4, 6, 9, 11].contains month then 30
  else 31

def afterDate? (text : List Char) : Option (List Char) := do
  let (year, rest) ← readField? 4 0 9999 text
  let (month, rest) ← readField? 2 1 12 (← readMark? (· = '-') rest)
  let (_, rest) ← readField? 2 1 (daysIn year month) (← readMark? (· = '-') rest)
  return rest

def afterTime? (text : List Char) : Option (List Char) := do
  let (_, rest) ← readField? 2 0 23 text
  let (_, rest) ← readField? 2 0 59 (← readMark? (· = ':') rest)
  let (_, rest) ← readField? 2 0 60 (← readMark? (· = ':') rest)
  match rest with
  | '.' :: fraction =>
      if fraction.head?.any (·.isDigit) then some (fraction.dropWhile (·.isDigit)) else some rest
  | _ => some rest

def afterOffset? (text : List Char) : Option (List Char) :=
  match text with
  | c :: rest =>
      if c = 'Z' || c = 'z' then some rest
      else if Decimal.isSign c then do
        let (_, rest) ← readField? 2 0 23 rest
        let (_, rest) ← readField? 2 0 59 (← readMark? (· = ':') rest)
        return rest
      else some text
  | [] => some []

def readMoment? (text : List Char) : Option (Item × List Char) :=
  match afterDate? text with
  | some rest =>
      let time? := (readMark? (fun c => c = 'T' || c = 't' || c = ' ') rest).bind afterTime?
      match time? with
      | some rest => (afterOffset? rest).map fun rest => (.moment, rest)
      | none => some (.moment, rest)
  | none => (afterTime? text).map fun rest => (.moment, rest)

end SpecForm.Toml
