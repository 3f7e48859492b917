import SpecForm.Decimal.Round
import SpecForm.Text.Percent

/-!
# Numerals

Numbers are read exactly: an integer from its digits, a decimal as its digits
together with the power of ten that scales them.
-/

namespace SpecForm.Decimal

def magnitude? (base : Nat) (digits : List Char) : Option Nat :=
  if digits.isEmpty then none
  else
    digits.foldlM (fun n c => do
      let digit ← Text.Percent.hexValue? c
      if digit < base then some (base * n + digit) else none) 0

def isSign (c : Char) : Bool := c = '+' || c = '-'

def startsWithSign (text : List Char) : Bool := text.head?.any isSign

def withoutSign (text : List Char) : List Char :=
  if startsWithSign text then text.drop 1 else text

/-- The digits of a decimal without a sign, and the power of ten that scales them.
Digits may be missing on one side of the point. -/
def scientific? (text : List Char) : Option (Nat × Int) := do
  let whole := text.takeWhile (·.isDigit)
  let rest := text.dropWhile (·.isDigit)
  let (fraction, rest) :=
    match rest with
    | '.' :: rest => (rest.takeWhile (·.isDigit), rest.dropWhile (·.isDigit))
    | _ => ([], rest)
  let digits ← magnitude? 10 (whole ++ fraction)
  let exponent ←
    match rest with
    | [] => some 0
    | e :: rest =>
        if e = 'e' || e = 'E' then
          (magnitude? 10 (withoutSign rest)).map fun size =>
            if rest.head? = some '-' then -(size : Int) else (size : Int)
        else none
  return (digits, exponent - fraction.length)

def nearest? (text : List Char) : Option Float := do
  let (digits, exponent) ← scientific? (withoutSign text)
  let size := ofScientific digits exponent
  return if text.head? = some '-' then -size else size

end SpecForm.Decimal
