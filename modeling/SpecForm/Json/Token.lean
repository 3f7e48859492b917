import SpecForm.Json.Value
import SpecForm.Text.Percent

/-!
# Tokens of JSON text

A token is a bracket, a mark or a whole scalar.  A number without fraction and
exponent that lies between `-2^63` and `2^64 - 1` is an integer.  Any other
number is a double computed in two roundings: its digits, as far as they fit in
64 bits, and then one product with a power of ten.
-/

namespace SpecForm.Json

inductive Token where
  | openArray | closeArray | openObject | closeObject | comma | colon
  | scalar (value : Json)
  deriving Inhabited

namespace Token

/-! ## Numbers -/

def maxSignificand : Nat := UInt64.size - 1

def digitValue (c : Char) : Nat := c.toNat - '0'.toNat

/-- Appends digits as far as they fit; returns how many were left out. -/
def appendWhole (n : Nat) : List Char → Nat × Nat
  | [] => (n, 0)
  | c :: rest =>
      if 10 * n + digitValue c ≤ maxSignificand then appendWhole (10 * n + digitValue c) rest
      else (n, rest.length + 1)

/-- Appends digits as far as they fit; returns how many were taken. -/
def appendPart (n : Nat) : List Char → Nat × Nat
  | [] => (n, 0)
  | c :: rest =>
      if 10 * n + digitValue c ≤ maxSignificand then
        let (m, taken) := appendPart (10 * n + digitValue c) rest
        (m, taken + 1)
      else (n, 0)

def powerOfTen (exponent : Nat) : Float := Decimal.ofRatio (Nat.pow 10 exponent) 1

/-- A double times a power of ten; `none` if the result is infinite.  A divisor
beyond `10^308` is applied in steps, three of which leave nothing. -/
def scaled : Nat → Float → Int → Option Float
  | fuel, x, exponent =>
      if exponent.natAbs ≤ 308 then
        if exponent < 0 then some (x / powerOfTen exponent.natAbs)
        else
          let y := x * powerOfTen exponent.natAbs
          if y.isInf then none else some y
      else if x == 0 then some x
      else if 0 < exponent then none
      else match fuel with
        | 0 => some 0.0
        | fuel + 1 => scaled fuel (x / powerOfTen 308) (exponent + 308)

structure Exponent where
  negative : Bool
  digits : List Char

structure Numeral where
  negative : Bool
  whole : List Char
  part : Option (List Char)
  exponent : Option Exponent

def maxExponent : Nat := 0x7FFFFFFF

def Numeral.float? (numeral : Numeral) : Option Float :=
  let (n, left) := appendWhole 0 numeral.whole
  let (n, taken) := appendPart n (numeral.part.getD [])
  let start : Int := (left : Int) - taken
  let size := ((numeral.exponent.map Exponent.digits).getD []).foldl
    (fun value c => 10 * value + digitValue c) 0
  let falls := (numeral.exponent.map Exponent.negative).getD false
  let magnitude :=
    if maxExponent < size then
      if n ≠ 0 && !falls then none else some 0.0
    else scaled 4 (Decimal.ofNat n) (if falls then start - size else start + size)
  magnitude.map fun x => if numeral.negative then -x else x

def Numeral.value? (numeral : Numeral) : Option Json :=
  let (n, left) := appendWhole 0 numeral.whole
  if numeral.part.isSome || numeral.exponent.isSome || left ≠ 0 then
    numeral.float?.map .float
  else if !numeral.negative then some (.int n)
  else if n ≠ 0 && n ≤ 0x8000000000000000 then some (.int (-n))
  else some (.float (-(Decimal.ofNat n)))

def isDigits (digits : List Char) : Bool := !digits.isEmpty && digits.all (·.isDigit)

def Numeral.isWellFormed (numeral : Numeral) : Bool :=
  isDigits numeral.whole && (numeral.whole.head? ≠ some '0' || numeral.whole.length = 1) &&
    numeral.part.all isDigits && numeral.exponent.all fun e => isDigits e.digits

def readSign (text : List Char) : Bool × List Char :=
  match text with
  | '-' :: rest => (true, rest)
  | '+' :: rest => (false, rest)
  | _ => (false, text)

def readExponent (text : List Char) : Option Exponent × List Char :=
  match text with
  | c :: rest =>
      if c = 'e' || c = 'E' then
        let (negative, digits) := readSign rest
        (some ⟨negative, digits.takeWhile (·.isDigit)⟩, digits.dropWhile (·.isDigit))
      else (none, text)
  | [] => (none, text)

def readPart (text : List Char) : Option (List Char) × List Char :=
  match text with
  | '.' :: rest => (some (rest.takeWhile (·.isDigit)), rest.dropWhile (·.isDigit))
  | _ => (none, text)

def readUnsigned? (negative : Bool) (digits : List Char) : Option (Json × List Char) :=
  let (part, rest) := readPart (digits.dropWhile (·.isDigit))
  let (exponent, rest) := readExponent rest
  let numeral : Numeral := ⟨negative, digits.takeWhile (·.isDigit), part, exponent⟩
  if numeral.isWellFormed then numeral.value?.map (·, rest) else none

/-! ## Strings -/

def hexQuad? (a b c d : Char) : Option Nat := do
  let w ← Text.Percent.hexValue? a
  let x ← Text.Percent.hexValue? b
  let y ← Text.Percent.hexValue? c
  let z ← Text.Percent.hexValue? d
  return 4096 * w + 256 * x + 16 * y + z

def isHighSurrogate (n : Nat) : Bool := 0xD800 ≤ n && n < 0xDC00

def isLowSurrogate (n : Nat) : Bool := 0xDC00 ≤ n && n < 0xE000

def simpleEscape? (c : Char) : Option Char :=
  match c with
  | '\x22' => some '\x22'
  | '\\' => some '\\'
  | '/' => some '/'
  | 'b' => some '\x08'
  | 'f' => some '\x0c'
  | 'n' => some '\n'
  | 'r' => some '\r'
  | 't' => some '\t'
  | _ => none

/-- Reads to the closing quote; `done` is what was read, last character first.
The two halves of a surrogate pair must stand together. -/
def readString? (done : List Char) : List Char → Option (String × List Char)
  | [] => none
  | '\x22' :: rest => some (String.ofList done.reverse, rest)
  | '\\' :: 'u' :: a :: b :: c :: d :: '\\' :: 'u' :: e :: f :: g :: h :: rest =>
      match hexQuad? a b c d with
      | none => none
      | some high =>
          if isHighSurrogate high then
            match hexQuad? e f g h with
            | none => none
            | some low =>
                if isLowSurrogate low then
                  let code := 0x10000 + 1024 * (high - 0xD800) + (low - 0xDC00)
                  readString? (Char.ofNat code :: done) rest
                else none
          else if isLowSurrogate high then none
          else readString? (Char.ofNat high :: done) ('\\' :: 'u' :: e :: f :: g :: h :: rest)
  | '\\' :: 'u' :: a :: b :: c :: d :: rest =>
      match hexQuad? a b c d with
      | none => none
      | some code =>
          if isHighSurrogate code || isLowSurrogate code then none
          else readString? (Char.ofNat code :: done) rest
  | '\\' :: c :: rest =>
      match simpleEscape? c with
      | some plain => readString? (plain :: done) rest
      | none => none
  | c :: rest => if c.toNat < 32 || c = '\\' then none else readString? (c :: done) rest

/-! ## Tokens -/

def literals : List (List Char × Json) :=
  [("null".toList, .null), ("true".toList, .bool true), ("false".toList, .bool false)]

def readLiteral? (text : List Char) : Option (Json × List Char) :=
  literals.findSome? fun (word, value) =>
    if word.isPrefixOf text then some (value, text.drop word.length) else none

def read? (text : List Char) : Option (Token × List Char) :=
  match text with
  | '[' :: rest => some (.openArray, rest)
  | ']' :: rest => some (.closeArray, rest)
  | '\x7b' :: rest => some (.openObject, rest)
  | '\x7d' :: rest => some (.closeObject, rest)
  | ',' :: rest => some (.comma, rest)
  | ':' :: rest => some (.colon, rest)
  | '\x22' :: rest => (readString? [] rest).map fun (text, rest) => (.scalar (.string text), rest)
  | '-' :: rest => (readUnsigned? true rest).map fun (n, rest) => (.scalar n, rest)
  | _ =>
      if (text.head?.map Char.isDigit).getD false then
        (readUnsigned? false text).map fun (n, rest) => (.scalar n, rest)
      else (readLiteral? text).map fun (value, rest) => (.scalar value, rest)

def isBlank (c : Char) : Bool := c = ' ' || c = '\t' || c = '\n' || c = '\r'

/-! ## Every token takes something away -/

theorem length_dropWhile_le (p : Char → Bool) (text : List Char) :
    (text.dropWhile p).length ≤ text.length :=
  (List.dropWhile_sublist p).length_le

theorem length_readString? {done text rest : List Char} {s : String}
    (h : readString? done text = some (s, rest)) : rest.length < text.length := by
  fun_induction readString? done text <;> simp_all <;> omega

theorem length_readPart (text : List Char) : (readPart text).2.length ≤ text.length := by
  unfold readPart
  split
  · rename_i rest
    have := length_dropWhile_le (·.isDigit) rest
    simp only [List.length_cons]
    omega
  · exact Nat.le_refl _

theorem length_readSign (text : List Char) : (readSign text).2.length ≤ text.length := by
  unfold readSign
  split <;> simp

theorem length_readExponent (text : List Char) :
    (readExponent text).2.length ≤ text.length := by
  unfold readExponent
  split
  · rename_i c rest
    split
    · have hs := length_readSign rest
      have hd := length_dropWhile_le (·.isDigit) (readSign rest).2
      simp only [List.length_cons]
      omega
    · exact Nat.le_refl _
  · exact Nat.le_refl _

theorem length_readUnsigned? {negative : Bool} {digits rest : List Char} {value : Json}
    (h : readUnsigned? negative digits = some (value, rest)) :
    rest.length ≤ (digits.dropWhile (·.isDigit)).length := by
  have hp := length_readPart (digits.dropWhile (·.isDigit))
  have he := length_readExponent (readPart (digits.dropWhile (·.isDigit))).2
  simp only [readUnsigned?] at h
  split at h
  · obtain ⟨_, _, heq⟩ := Option.map_eq_some_iff.mp h
    have hr : (readExponent (readPart (digits.dropWhile (·.isDigit))).2).2 = rest :=
      (Prod.mk.inj heq).2
    rw [hr] at he
    omega
  · cases h

theorem length_readLiteral? {text rest : List Char} {value : Json}
    (h : readLiteral? text = some (value, rest)) : rest.length < text.length := by
  obtain ⟨⟨word, json⟩, hmem, hword⟩ := List.exists_of_findSome?_eq_some h
  have hpos : 0 < word.length := by
    simp only [literals, List.mem_cons, List.not_mem_nil, or_false, Prod.mk.injEq] at hmem
    rcases hmem with ⟨rfl, _⟩ | ⟨rfl, _⟩ | ⟨rfl, _⟩ <;> decide
  simp only at hword
  split at hword
  · rename_i hpre
    have hle := (List.isPrefixOf_iff_prefix.mp hpre).length_le
    have hr : text.drop word.length = rest := (Prod.mk.inj (Option.some.inj hword)).2
    rw [← hr, List.length_drop]
    omega
  · cases hword

theorem length_read? {text rest : List Char} {token : Token}
    (h : read? text = some (token, rest)) : rest.length < text.length := by
  unfold read? at h
  split at h
  iterate 6
    · cases h
      simp
  · obtain ⟨⟨_, _⟩, hs, heq⟩ := Option.map_eq_some_iff.mp h
    cases heq
    have := length_readString? hs
    simp only [List.length_cons]
    omega
  · obtain ⟨⟨_, _⟩, hs, heq⟩ := Option.map_eq_some_iff.mp h
    cases heq
    have := length_readUnsigned? hs
    have := length_dropWhile_le (·.isDigit) ‹List Char›
    simp only [List.length_cons]
    omega
  · split at h
    · rename_i hd
      obtain ⟨⟨_, _⟩, hs, heq⟩ := Option.map_eq_some_iff.mp h
      cases heq
      have := length_readUnsigned? hs
      cases text with
      | nil => simp at hd
      | cons c later =>
          simp only [List.head?_cons, Option.map_some, Option.getD_some] at hd
          have := length_dropWhile_le (·.isDigit) later
          simp only [List.dropWhile_cons, hd, if_true, List.length_cons] at *
          omega
    · obtain ⟨⟨_, _⟩, hs, heq⟩ := Option.map_eq_some_iff.mp h
      cases heq
      exact length_readLiteral? hs

def readAll? (text : List Char) : Option (List Token) :=
  match _hs : text.dropWhile isBlank with
  | [] => some []
  | c :: later =>
      match _hr : read? (c :: later) with
      | none => none
      | some (token, rest) => (readAll? rest).map (token :: ·)
termination_by text.length
decreasing_by
  have := length_read? _hr
  have := length_dropWhile_le isBlank text
  rw [_hs] at this
  omega

end Token

end SpecForm.Json
