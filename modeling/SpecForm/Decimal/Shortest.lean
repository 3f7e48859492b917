import SpecForm.Decimal.Round

/-!
# Shortest decimals

The text of a double has the fewest digits that read back as the same double,
and of the decimals with that many digits the nearest one.  A positive double is
`m * 2 ^ q`; the numbers that round to it form an interval around it, with both
ends in it when `m` is even.  All comparisons are between natural numbers.
-/

namespace SpecForm.Decimal

/-- A positive finite double as `m * 2 ^ q`, with the interval that rounds to it:
all of `low`, `value` and `high` are to be divided by `unit`. -/
structure Interval where
  low : Nat
  value : Nat
  high : Nat
  unit : Nat
  closed : Bool
  deriving DecidableEq, Repr

/-- The interval of the double with the bit pattern `bits`.  Below a power of two
the doubles lie closer together than above it. -/
def intervalOfBits (bits : Nat) : Interval :=
  let biased := bits / hiddenBit % 2048
  let part := bits % hiddenBit
  let m := if biased = 0 then part else part + hiddenBit
  let q : Int := (max biased 1 : Nat) - (1075 : Int)
  let below := if part = 0 && 1 < biased then 1 else 2
  let up := if q < 2 then 1 else Nat.pow 2 (q - 2).toNat
  let down := if q < 2 then Nat.pow 2 (2 - q).toNat else 1
  ⟨(4 * m - below) * up, 4 * m * up, (4 * m + 2) * up, down, m % 2 = 0⟩

inductive Tie where
  | even | up
  deriving DecidableEq, Repr

/-- Digits without zeros at either end, and the exponent `e` in `0.d₁d₂… * 10 ^ e`. -/
structure Digits where
  digits : List Char
  point : Int
  deriving DecidableEq, Repr

/-- A decimal `n` on a grid of step `10 ^ p`, times `unit`, next to the value
times the same factor. -/
structure Grid where
  step : Nat
  factor : Nat

def grid (interval : Interval) (p : Int) : Grid :=
  if p < 0 then ⟨interval.unit, Nat.pow 10 p.natAbs⟩
  else ⟨interval.unit * Nat.pow 10 p.natAbs, 1⟩

def readsBack (interval : Interval) (g : Grid) (n : Nat) : Bool :=
  let point := n * g.step
  let low := interval.low * g.factor
  let high := interval.high * g.factor
  if interval.closed then low ≤ point && point ≤ high else low < point && point < high

def pick? (tie : Tie) (interval : Interval) (p : Int) : Option Nat :=
  let g := grid interval p
  let value := interval.value * g.factor
  let n := value / g.step
  let twice := 2 * (value % g.step)
  match readsBack interval g n, readsBack interval g (n + 1) with
  | true, false => some n
  | false, true => some (n + 1)
  | false, false => none
  | true, true =>
      if twice < g.step then some n
      else if g.step < twice then some (n + 1)
      else match tie with
        | .up => some (n + 1)
        | .even => some (n + n % 2)

def magnitude (interval : Interval) : Nat → Int → Int
  | 0, k => k
  | fuel + 1, k =>
      let g := grid interval k
      if interval.value * g.factor < g.step then k else magnitude interval fuel (k + 1)

def magnitudeStart (interval : Interval) : Int :=
  ((Nat.log2 interval.value : Int) - Nat.log2 interval.unit - 1) * 30103 / 100000

def search (tie : Tie) (interval : Interval) (k : Int) : Nat → Nat → Nat × Int
  | 0, count => (interval.value * (grid interval (k - count)).factor /
      (grid interval (k - count)).step, k - count)
  | fuel + 1, count =>
      match pick? tie interval (k - count) with
      | some n => (n, k - count)
      | none => search tie interval k fuel (count + 1)

def trimZeros (digits : List Char) : List Char :=
  (digits.reverse.dropWhile (· = '0')).reverse

def shortestOfBits (tie : Tie) (bits : Nat) : Digits :=
  let interval := intervalOfBits bits
  let k := magnitude interval 4 (magnitudeStart interval)
  let (n, p) := search tie interval k 17 1
  let digits := Nat.toDigits 10 n
  ⟨trimZeros digits, p + digits.length⟩

/-! ## Layouts -/

def zeros (count : Nat) : List Char := List.replicate count '0'

def positional (d : Digits) : List Char × List Char :=
  if d.point ≤ 0 then ([], zeros d.point.natAbs ++ d.digits)
  else
    let whole := d.point.toNat
    (d.digits.take whole ++ zeros (whole - d.digits.length), d.digits.drop whole)

def isNegative (x : Float) : Bool := signBit ≤ x.toBits.toNat

def isZero (x : Float) : Bool := x.toBits.toNat % signBit = 0

def isFinite (x : Float) : Bool := x.toBits.toNat / hiddenBit % 2048 ≠ 2047

def shortest (tie : Tie) (x : Float) : Digits := shortestOfBits tie (x.toBits.toNat % signBit)

def signText (x : Float) : List Char := if isNegative x then ['-'] else []

def exponentText (exponent : Int) : List Char :=
  (if exponent < 0 then '-' else '+') :: Nat.toDigits 10 exponent.natAbs

/-- With a point always, and an exponent below `1e-5` and from `1e16` on. -/
def scientificText (x : Float) : String :=
  if isZero x then String.ofList (signText x ++ ['0', '.', '0'])
  else
    let d := shortest .even x
    if d.point ≤ -5 || 16 < d.point then
      let tail := match d.digits.drop 1 with
        | [] => []
        | rest => '.' :: rest
      String.ofList (signText x ++ d.digits.take 1 ++ tail ++ 'e' :: exponentText (d.point - 1))
    else
      let (whole, part) := positional d
      let whole := if whole.isEmpty then ['0'] else whole
      let part := if part.isEmpty then ['0'] else part
      String.ofList (signText x ++ whole ++ '.' :: part)

/-- Never with an exponent, and with a point only where digits follow it. -/
def plainText (x : Float) : String :=
  if x.isNaN then "NaN"
  else if !isFinite x then String.ofList (signText x ++ ['i', 'n', 'f'])
  else if isZero x then String.ofList (signText x ++ ['0'])
  else
    let (whole, part) := positional (shortest .up x)
    let whole := if whole.isEmpty then ['0'] else whole
    let tail := if part.isEmpty then [] else '.' :: part
    String.ofList (signText x ++ whole ++ tail)

end SpecForm.Decimal
