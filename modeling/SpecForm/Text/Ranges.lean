import SpecForm.Text.Percent

/-!
# Sets of characters

A property of characters is given by the ranges of code points that have it,
written in hexadecimal and in rising order: `41-5A 61-7A AA`.
-/

namespace SpecForm.Text

def hexValue (digits : List Char) : Nat :=
  digits.foldl (fun value c => 16 * value + (Percent.hexValue? c).getD 0) 0

def signedValue : List Char → Int
  | '-' :: digits => -(digits.foldl (fun value c => 10 * value + (c.toNat - '0'.toNat)) 0 : Nat)
  | digits => (digits.foldl (fun value c => 10 * value + (c.toNat - '0'.toNat)) 0 : Nat)

structure Ranges where
  bounds : Array (Nat × Nat)

namespace Ranges

def ofLines (lines : List String) : Ranges :=
  ⟨(((String.join lines).toList.splitOn ' ').map fun word =>
    match word.splitOn '-' with
    | [first, last] => (hexValue first, hexValue last)
    | _ => (hexValue word, hexValue word)).toArray⟩

def search (bounds : Array (Nat × Nat)) (code : Nat) : Nat → Nat → Nat → Bool
  | 0, _, _ => false
  | fuel + 1, low, high =>
      if low < high then
        let middle := (low + high) / 2
        match bounds[middle]? with
        | none => false
        | some (first, last) =>
            if code < first then search bounds code fuel low middle
            else if last < code then search bounds code fuel (middle + 1) high
            else true
      else false

def contains (ranges : Ranges) (c : Char) : Bool :=
  search ranges.bounds c.toNat (ranges.bounds.size + 1) 0 ranges.bounds.size

end Ranges

/-- A run of characters that change case by one offset. -/
structure CaseRun where
  first : Nat
  last : Nat
  step : Nat
  offset : Int

namespace CaseRun

def listOfLines (lines : List String) : List CaseRun :=
  ((String.join lines).toList.splitOn ',').filterMap fun entry =>
    match (entry.splitOn ' ').filter (!·.isEmpty) with
    | [first, last, step, offset] =>
        some ⟨hexValue first, hexValue last, hexValue step, signedValue offset⟩
    | _ => none

def move? (run : CaseRun) (c : Char) : Option Char :=
  if run.first ≤ c.toNat ∧ c.toNat ≤ run.last ∧ (c.toNat - run.first) % run.step = 0 then
    some (Char.ofNat (c.toNat + run.offset).toNat)
  else none

end CaseRun

def expansionsOfLines (lines : List String) : List (Nat × List Nat) :=
  ((String.join lines).toList.splitOn ',').filterMap fun entry =>
    match ((entry.splitOn ' ').filter (!·.isEmpty)).map hexValue with
    | code :: replacement => some (code, replacement)
    | [] => none

end SpecForm.Text
