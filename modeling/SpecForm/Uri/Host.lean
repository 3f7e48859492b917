import SpecForm.Text.Case
import SpecForm.Text.Cut
import SpecForm.Text.Percent
import SpecForm.Uri.Basic

/-!
# Hosts

The host of a special URI is a domain, an IPv4 address or an IPv6 address in
brackets.  A domain is decoded, put into lower case and, label by label, into
its ASCII form; a domain whose last label looks like a number must be an
address.  The host of another URI is kept as it is written.
-/

namespace SpecForm.Uri.Host

open Text

/-! ## IPv4 -/

def digitValue? (base : Nat) (c : Char) : Option Nat :=
  (Percent.hexValue? c).filter (· < base)

def number? (base : Nat) (digits : List Char) : Option Nat :=
  if digits.isEmpty then none
  else digits.foldl (fun value c =>
    value.bind fun n => (digitValue? base c).map fun d => base * n + d) (some 0)

/-- A part of an IPv4 address: decimal, octal after `0`, hexadecimal after `0x`. -/
def ipv4Number? : List Char → Option Nat
  | [] => none
  | ['0', 'x'] | ['0', 'X'] => some 0
  | '0' :: 'x' :: digits | '0' :: 'X' :: digits => number? 16 digits
  | '0' :: d :: digits => number? 8 (d :: digits)
  | digits => number? 10 digits

def endsInNumber (domain : List Char) : Bool :=
  let looksNumeric (label : List Char) : Bool :=
    (!label.isEmpty && label.all (·.isDigit)) || (ipv4Number? label).isSome
  match (domain.splitOn '.').reverse with
  | [] :: label :: _ => looksNumeric label
  | label :: _ => looksNumeric label
  | [] => false

/-- The numbers of an address as one number: the last one fills all the bytes
that the others leave. -/
def ipv4Value? (numbers : List Nat) : Option Nat :=
  match numbers.reverse with
  | [] => none
  | last :: front =>
      let space := Nat.pow 256 (4 - front.length)
      if 3 < front.length || front.any (255 < ·) || space ≤ last then none
      else some (front.reverse.foldl (fun n byte => 256 * n + byte) 0 * space + last)

def ipv4? (domain : List Char) : Option Nat :=
  let labels := domain.splitOn '.'
  let labels := if labels.getLast? = some [] then labels.dropLast else labels
  (labels.mapM ipv4Number?).bind ipv4Value?

def renderIpv4 (address : Nat) : String :=
  ".".intercalate ([3, 2, 1, 0].map fun i => toString (address / Nat.pow 256 i % 256))

/-! ## IPv6 -/

structure Ipv6State where
  /-- The pieces read so far, last one first. -/
  pieces : List Nat
  /-- How many pieces stand before the `::`, and one for it. -/
  gap : Option Nat
  /-- Pieces read, the gap counted as one. -/
  count : Nat

/-- A decimal number below 256 without leading zeros, and the rest. -/
def octet? (text : List Char) : Option (Nat × List Char) :=
  let digits := text.takeWhile (·.isDigit)
  match digits, number? 10 digits with
  | '0' :: _ :: _, _ => none
  | _, some n => if n < 256 then some (n, text.dropWhile (·.isDigit)) else none
  | _, none => none

def embeddedIpv4? (text : List Char) : Option (Nat × Nat) := do
  let (a, rest) ← octet? text
  let .cons '.' rest := rest | none
  let (b, rest) ← octet? rest
  let .cons '.' rest := rest | none
  let (c, rest) ← octet? rest
  let .cons '.' rest := rest | none
  let (d, rest) ← octet? rest
  if rest.isEmpty then some (256 * a + b, 256 * c + d) else none

def readIpv6 (fuel : Nat) (state : Ipv6State) (text : List Char) : Option Ipv6State :=
  match fuel, text with
  | _, [] => some state
  | 0, _ => none
  | fuel + 1, c :: rest =>
      if 8 ≤ state.count then none
      else if c = ':' then
        if state.gap.isSome then none
        else readIpv6 fuel { state with gap := some (state.count + 1), count := state.count + 1 } rest
      else
        let digits := ((c :: rest).take 4).takeWhile fun c => (Percent.hexValue? c).isSome
        let value := (number? 16 digits).getD 0
        let next : Ipv6State :=
          { state with pieces := value :: state.pieces, count := state.count + 1 }
        match (c :: rest).drop digits.length with
        | [] => some next
        | '.' :: _ =>
            if digits.isEmpty || 6 < state.count then none
            else (embeddedIpv4? (c :: rest)).map fun (high, low) =>
              { state with pieces := low :: high :: state.pieces, count := state.count + 2 }
        | ':' :: [] => none
        | ':' :: later => readIpv6 fuel next later
        | _ => none

def ipv6? (text : List Char) : Option (List Nat) := do
  let state ← match text with
    | ':' :: ':' :: rest => readIpv6 (text.length + 1) ⟨[], some 1, 1⟩ rest
    | ':' :: _ => none
    | [] | [_] => none
    | _ => readIpv6 (text.length + 1) ⟨[], none, 0⟩ text
  let pieces := state.pieces.reverse
  match state.gap with
  | none => if state.count = 8 then some pieces else none
  | some gap =>
      if 8 < state.count then none
      else some (pieces.take (gap - 1) ++ List.replicate (8 - pieces.length) 0 ++
        pieces.drop (gap - 1))

def hexText (n : Nat) : String := String.ofList (Nat.toDigits 16 n)

/-- The first longest run of two or more zeros: where it starts and its length. -/
def zeroRun (pieces : List Nat) : Option (Nat × Nat) :=
  let runs := (List.range pieces.length).map fun start =>
    (start, ((pieces.drop start).takeWhile (· = 0)).length)
  let longest := (runs.map (·.2)).foldl max 0
  if longest < 2 then none else runs.find? (·.2 = longest)

def renderIpv6 (pieces : List Nat) : String :=
  let joined (part : List Nat) : String := ":".intercalate (part.map hexText)
  match zeroRun pieces with
  | none => "[" ++ joined pieces ++ "]"
  | some (start, length) =>
      "[" ++ joined (pieces.take start) ++ "::" ++ joined (pieces.drop (start + length)) ++ "]"

/-! ## Domains -/

def forbiddenInDomain (c : Char) : Bool :=
  c.toNat ≤ 32 || c.toNat = 127 ||
    ['#', '%', '/', ':', '<', '>', '?', '@', '[', '\\', ']', '^', '|'].contains c

def forbiddenInHost (c : Char) : Bool :=
  ['\x00', '\t', '\n', '\r', ' ', '#', '/', ':', '<', '>', '?', '@', '[', '\\', ']', '^',
    '|'].contains c

def ignoredInDomain (c : Char) : Bool :=
  [0xAD, 0x34F, 0x200B, 0x2060, 0x2064, 0xFEFF].contains c.toNat ||
    (0x180B ≤ c.toNat && c.toNat ≤ 0x180D) || (0xFE00 ≤ c.toNat && c.toNat ≤ 0xFE0F)

def mapDomainChar (c : Char) : List Char :=
  if ignoredInDomain c then []
  else if c = '\u3002' || c = '\uff0e' || c = '\uff61' then ['.']
  else if 0xFF01 ≤ c.toNat && c.toNat ≤ 0xFF5E then [(Char.ofNat (c.toNat - 0xFEE0)).toLower]
  else lowerChar c

namespace Punycode

def digit (n : Nat) : Char := Char.ofNat (if n < 26 then 97 + n else 22 + n)

def threshold (k bias : Nat) : Nat :=
  if k ≤ bias then 1 else if bias + 26 ≤ k then 26 else k - bias

/-- Divides by 35 until `delta` is small, counting 36 for each time. -/
def shrink : Nat → Nat → Nat → Nat
  | 0, delta, k => k + 36 * delta / (delta + 38)
  | fuel + 1, delta, k =>
      if 455 < delta then shrink fuel (delta / 35) (k + 36) else k + 36 * delta / (delta + 38)

def adapt (delta count : Nat) (first : Bool) : Nat :=
  let delta := if first then delta / 700 else delta / 2
  shrink delta (delta + delta / count) 0

def encodeNumber : Nat → Nat → Nat → Nat → List Char
  | 0, _, _, _ => []
  | fuel + 1, bias, k, q =>
      let t := threshold k bias
      if q < t then [digit q]
      else digit (t + (q - t) % (36 - t)) :: encodeNumber fuel bias (k + 36) ((q - t) / (36 - t))

structure EncodeState where
  output : List Char
  delta : Nat
  bias : Nat
  written : Nat

def encodeChar (basicCount code : Nat) (state : EncodeState) (c : Char) : EncodeState :=
  if c.toNat < code then { state with delta := state.delta + 1 }
  else if c.toNat = code then
    { output := state.output ++ encodeNumber (state.delta + 1) state.bias 36 state.delta
      delta := 0
      bias := adapt state.delta (state.written + 1) (state.written = basicCount)
      written := state.written + 1 }
  else state

def encodeCodes (label : List Char) (basicCount : Nat) :
    List Nat → Nat → EncodeState → EncodeState
  | [], _, state => state
  | code :: codes, low, state =>
      let moved := { state with delta := state.delta + (code - low) * (state.written + 1) }
      let passed := label.foldl (encodeChar basicCount code) moved
      encodeCodes label basicCount codes (code + 1) { passed with delta := passed.delta + 1 }

def encode (label : List Char) : List Char :=
  let basic := label.filter (·.toNat < 128)
  let codes := ((label.map Char.toNat).filter (128 ≤ ·)).mergeSort.eraseDups
  let start : EncodeState :=
    ⟨basic ++ (if basic.isEmpty then [] else ['-']), 0, 72, basic.length⟩
  (encodeCodes label basic.length codes 128 start).output

def digitValue? (c : Char) : Option Nat :=
  if c.isLower then some (c.toNat - 97)
  else if c.isDigit then some (c.toNat - 22)
  else none

def decodeNumber (bias : Nat) : Nat → Nat → Nat → List Char → Option (Nat × List Char)
  | _, _, _, [] => none
  | k, weight, value, c :: rest =>
      (digitValue? c).bind fun d =>
        let t := threshold k bias
        if d < t then some (value + d * weight, rest)
        else decodeNumber bias (k + 36) (weight * (36 - t)) (value + d * weight) rest

def decodeFrom : Nat → Nat → Nat → Nat → List Char → List Char → Option (List Char)
  | _, _, _, _, output, [] => some output
  | 0, _, _, _, _, _ => none
  | fuel + 1, code, index, bias, output, text =>
      (decodeNumber bias 36 1 index text).bind fun (next, rest) =>
        let length := output.length + 1
        let code := code + next / length
        if (Char.ofNat code).toNat ≠ code then none
        else
          let at' := next % length
          decodeFrom fuel code (at' + 1) (adapt (next - index) length (index = 0))
            (output.take at' ++ Char.ofNat code :: output.drop at') rest

def decode? (text : List Char) : Option (List Char) :=
  match cutLast? '-' text with
  | some (basic, rest) => decodeFrom (text.length + 1) 128 0 72 basic rest
  | none => decodeFrom (text.length + 1) 128 0 72 [] text

end Punycode

def punycodeMark : List Char := ['x', 'n', '-', '-']

def asciiLabel? (label : List Char) : Option (List Char) :=
  if label.all (·.toNat < 128) then
    if punycodeMark.isPrefixOf label then
      match Punycode.decode? (label.drop 4) with
      | some decoded =>
          if decoded.all (·.toNat < 128) || decoded.flatMap mapDomainChar ≠ decoded then none
          else some label
      | none => none
    else some label
  else some (punycodeMark ++ Punycode.encode label)

def domain? (text : List Char) : Option (List Char) := do
  let decoded ← Percent.decodeText? text
  let mapped := decoded.toList.flatMap mapDomainChar
  if mapped.any forbiddenInDomain then none
  else
    let labels ← (mapped.splitOn '.').mapM asciiLabel?
    some (['.'].intercalate labels)

/-! ## Hosts -/

def bracketed (text : List Char) : Except ParseError String :=
  if text.getLast? ≠ some ']' then .error .invalidIpv6
  else match ipv6? (text.drop 1).dropLast with
    | some pieces => .ok (renderIpv6 pieces)
    | none => .error .invalidIpv6

def parseSpecial (text : List Char) : Except ParseError String :=
  if text.head? = some '[' then bracketed text
  else match domain? text with
    | none => .error .invalidDomain
    | some [] => .error .emptyHost
    | some domain =>
        if endsInNumber domain then
          match ipv4? domain with
          | some address => .ok (renderIpv4 address)
          | none => .error .invalidIpv4
        else .ok (String.ofList domain)

def parseOther (text : List Char) : Except ParseError String :=
  if text.head? = some '[' then bracketed text
  else if text.any forbiddenInHost then .error .invalidHostCharacter
  else .ok (String.ofList (Percent.encode (fun c => c.toNat < 32 || 126 < c.toNat) text))

end SpecForm.Uri.Host
