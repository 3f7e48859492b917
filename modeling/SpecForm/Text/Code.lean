import SpecForm.Text.Percent

/-!
# Characters by their codes
-/

namespace SpecForm.Text

/-- The character with the code that hexadecimal digits give; surrogates have
none. -/
def charOfHex? (digits : List Char) : Option Char := do
  let values ← digits.mapM Percent.hexValue?
  let code := values.foldl (fun n d => 16 * n + d) 0
  if (0xD800 ≤ code && code ≤ 0xDFFF) || 0x10FFFF < code then none
  else some (Char.ofNat code)

end SpecForm.Text
