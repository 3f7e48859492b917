import SpecForm.Decimal.Round

/-!
# Doubles that are natural numbers
-/

namespace SpecForm.Decimal

/-- The value of a double that is a natural number below `bound`; both zeros are
zero. -/
def natBelow? (bound : Nat) (x : Float) : Option Nat :=
  let bits := x.toBits.toNat
  let biased := bits / hiddenBit % 2048
  let part := bits % hiddenBit
  if bits % signBit = 0 then some 0
  else if signBit ≤ bits || biased < 1023 || biased = 2047 then none
  else
    let m := part + hiddenBit
    let value :=
      if 1075 ≤ biased then some (m * Nat.pow 2 (biased - 1075))
      else if m % Nat.pow 2 (1075 - biased) = 0 then some (m / Nat.pow 2 (1075 - biased))
      else none
    value.filter (· < bound)

end SpecForm.Decimal
