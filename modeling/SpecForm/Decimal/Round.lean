/-!
# Rounding to doubles

A quotient of natural numbers is rounded to the nearest double, a tie to the one
with an even significand, in exact arithmetic.  The exponent and the significand
of a finite double are packed so that the next double has the next bit pattern;
a significand that rounds up to a power of two carries into the exponent by
itself.
-/

namespace SpecForm.Decimal

def hiddenBit : Nat := 0x10000000000000

def signBit : Nat := 0x8000000000000000

/-- The nearest natural number to `num / den`, a half to the even one. -/
def roundQuotient (num den : Nat) : Nat :=
  let whole := num / den
  let twice := 2 * (num % den)
  if twice < den then whole
  else if den < twice then whole + 1
  else whole + whole % 2

def scaleDown (num den : Nat) (exponent : Int) : Nat × Nat :=
  if exponent < 0 then (num * Nat.pow 2 exponent.natAbs, den)
  else (num, den * Nat.pow 2 exponent.natAbs)

def exponentFor (num den : Nat) : Int :=
  let low : Int := (Nat.log2 num : Int) - Nat.log2 den - 53
  let (n, d) := scaleDown num den low
  max (-1074) (if n / d < 2 * hiddenBit then low else low + 1)

def infinityBits : Nat := 2047 * hiddenBit

def bitsOfRatio (num den : Nat) : Nat :=
  if num = 0 then 0
  else
    let exponent := exponentFor num den
    let (n, d) := scaleDown num den exponent
    min infinityBits ((exponent + 1074).toNat * hiddenBit + roundQuotient n d)

def ofRatio (num den : Nat) : Float := Float.ofBits (UInt64.ofNat (bitsOfRatio num den))

def ofNat (n : Nat) : Float := ofRatio n 1

def ofInt (n : Int) : Float := if n < 0 then -(ofNat n.natAbs) else ofNat n.natAbs

def ofScientific (digits : Nat) (exponent : Int) : Float :=
  if digits = 0 then 0.0
  else if 400 < exponent then Float.ofBits (UInt64.ofNat infinityBits)
  else if exponent < -400 - (Nat.log2 digits : Int) then 0.0
  else if exponent < 0 then ofRatio digits (Nat.pow 10 exponent.natAbs)
  else ofRatio (digits * Nat.pow 10 exponent.natAbs) 1

end SpecForm.Decimal
