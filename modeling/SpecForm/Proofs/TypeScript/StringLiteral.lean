import Mathlib.Logic.Function.Basic
import SpecForm.Text.Percent
import SpecForm.TypeScript.Printer

/-!
# String literals

A text in quotes is read as the language reads it: by a machine that takes one character after the
other and gives units of UTF-16.  Everything that is printed in quotes is read back, except that a
literal must not go on behind a line break and line breaks are printed as they are.
-/

namespace SpecForm.TypeScript

/-! ## Units -/

/-- The units of UTF-16 of a code point; a surrogate by itself is one unit. -/
def units (point : Nat) : List Nat :=
  if point < 0x10000 then [point]
  else [0xd800 + (point - 0x10000) / 0x400, 0xdc00 + (point - 0x10000) % 0x400]

def unitsOf (text : List Char) : List Nat := text.flatMap fun c => units c.toNat

theorem not_surrogate (c : Char) : c.toNat < 0xd800 ∨ 0xdfff < c.toNat ∧ c.toNat < 0x110000 :=
  c.valid

/-- A character and what follows it are told apart: only a surrogate, which no character is, could
be taken for the first half of another one. -/
theorem units_append_inj {c other : Char} {rest otherRest : List Nat}
    (h : units c.toNat ++ rest = units other.toNat ++ otherRest) :
    c = other ∧ rest = otherRest := by
  have hc := not_surrogate c
  have hother := not_surrogate other
  rw [← Char.toNat_inj]
  unfold units at h
  split at h <;> split at h <;>
    simp only [List.cons_append, List.nil_append, List.cons.injEq] at h
  · exact h
  · omega
  · omega
  · exact ⟨by omega, h.2.2⟩

theorem units_ne_nil (point : Nat) : units point ≠ [] := by
  unfold units
  split <;> simp

theorem unitsOf_injective : Function.Injective unitsOf := by
  intro text other h
  induction text generalizing other with
  | nil =>
      cases other with
      | nil => rfl
      | cons c other => exact absurd (List.append_eq_nil_iff.mp h.symm).1 (units_ne_nil _)
  | cons c text ih =>
      cases other with
      | nil => exact absurd (List.append_eq_nil_iff.mp h).1 (units_ne_nil _)
      | cons first other =>
          obtain ⟨rfl, hrest⟩ := units_append_inj h
          rw [ih hrest]

/-! ## Reading -/

def isLineBreak (c : Char) : Bool := c = '\n' || c = '\r'

/-- Where a reader is: between two characters of the literal, behind a backslash, in front of the
last hexadecimal digits of an escape, behind the `u` of an escape, within the braces of one with
the digits so far, behind `\0`, behind a carriage return that is left out, or behind the end. -/
inductive LiteralState where
  | inside
  | escaped
  | digits (left value : Nat)
  | unicode
  | braced (value : Option Nat)
  | zero
  | carriageReturn
  | closed
  deriving DecidableEq, Repr

def escapedPoint : Char → Nat
  | 'b' => 8
  | 't' => 9
  | 'n' => 10
  | 'v' => 11
  | 'f' => 12
  | 'r' => 13
  | c => c.toNat

def stepDigits (left value : Nat) (c : Char) : Option (LiteralState × List Nat) :=
  (Text.Percent.hexValue? c).map fun digit =>
    if left = 0 then (.inside, [16 * value + digit])
    else (.digits (left - 1) (16 * value + digit), [])

def stepEscaped (c : Char) : Option (LiteralState × List Nat) :=
  if c = 'x' then some (.digits 1 0, [])
  else if c = 'u' then some (.unicode, [])
  else if c = '0' then some (.zero, [0])
  else if c.isDigit then none
  else if c = '\r' then some (.carriageReturn, [])
  else if c = '\n' || c = '\u2028' || c = '\u2029' then some (.inside, [])
  else some (.inside, units (escapedPoint c))

section

variable (lenient : Bool)

/-- A line break ends the reading, unless the reader is lenient. -/
def stepInside (c : Char) : Option (LiteralState × List Nat) :=
  if c = '\x22' then some (.closed, [])
  else if c = '\\' then some (.escaped, [])
  else if isLineBreak c && !lenient then none
  else some (.inside, units c.toNat)

def stepLiteral : LiteralState → Char → Option (LiteralState × List Nat)
  | .inside, c => stepInside lenient c
  | .escaped, c => stepEscaped c
  | .digits left value, c => stepDigits left value c
  | .unicode, c => if c = '\x7b' then some (.braced none, []) else stepDigits 3 0 c
  | .braced value, c =>
      if c = '\x7d' then value.map fun point => (.inside, units point)
      else (Text.Percent.hexValue? c).bind fun digit =>
        let point := 16 * value.getD 0 + digit
        if point < 0x110000 then some (.braced (some point), []) else none
  | .zero, c => if c.isDigit then none else stepInside lenient c
  | .carriageReturn, c => if c = '\n' then some (.inside, []) else stepInside lenient c
  | .closed, _ => none

def readLiteral : LiteralState → List Char → Option (List Nat)
  | state, [] => if state = .closed then some [] else none
  | state, c :: rest => do
      let (next, value) ← stepLiteral lenient state c
      (readLiteral next rest).map (value ++ ·)

def literalValue? (text : String) : Option (List Nat) :=
  match text.toList with
  | '\x22' :: rest => readLiteral lenient .inside rest
  | _ => none

end

/-! ## Printed literals -/

section

variable {lenient : Bool} {c : Char} {rest : List Char}

theorem readLiteral_cons {state next : LiteralState} {value : List Nat}
    (h : stepLiteral lenient state c = some (next, value)) :
    readLiteral lenient state (c :: rest) = (readLiteral lenient next rest).map (value ++ ·) := by
  rw [readLiteral, h]
  rfl

theorem readLiteral_stuck {state : LiteralState} (h : stepLiteral lenient state c = none) :
    readLiteral lenient state (c :: rest) = none := by
  rw [readLiteral, h]
  rfl

theorem readLiteral_escaped (hc : c = '\\' ∨ c = '\x22') :
    readLiteral lenient .inside ('\\' :: c :: rest) =
      (readLiteral lenient .inside rest).map (units c.toNat ++ ·) := by
  have hopen : stepLiteral lenient .inside '\\' = some (.escaped, []) := rfl
  have hclose : stepLiteral lenient .escaped c = some (.inside, units c.toNat) := by
    rcases hc with rfl | rfl <;> rfl
  rw [readLiteral_cons hopen, readLiteral_cons hclose, Option.map_map]
  rfl

theorem readLiteral_plain (hbackslash : c ≠ '\\') (hquote : c ≠ '\x22') :
    readLiteral lenient .inside (c :: rest) =
      if isLineBreak c && !lenient then none
      else (readLiteral lenient .inside rest).map (units c.toNat ++ ·) := by
  split
  · rename_i hbreak
    refine readLiteral_stuck ?_
    rw [stepLiteral, stepInside, if_neg hquote, if_neg hbackslash, if_pos hbreak]
  · rename_i hbreak
    refine readLiteral_cons ?_
    rw [stepLiteral, stepInside, if_neg hquote, if_neg hbackslash, if_neg hbreak]

theorem readLiteral_escapeQuoted_cons (text : List Char) :
    readLiteral lenient .inside (Naming.escapeQuoted (c :: text) ++ rest) =
      if isLineBreak c && !lenient then none
      else (readLiteral lenient .inside (Naming.escapeQuoted text ++ rest)).map
        (units c.toNat ++ ·) := by
  rw [Naming.escapeQuoted]
  split
  · rename_i hc
    subst hc
    exact readLiteral_escaped (.inl rfl)
  · split
    · rename_i hc
      subst hc
      exact readLiteral_escaped (.inr rfl)
    · rename_i hbackslash hquote
      exact readLiteral_plain hbackslash hquote

theorem readLiteral_escapeQuoted (text : List Char) :
    readLiteral lenient .inside (Naming.escapeQuoted text ++ ['\x22']) =
      if text.any isLineBreak && !lenient then none else some (unitsOf text) := by
  induction text with
  | nil => rfl
  | cons c text ih =>
      rw [readLiteral_escapeQuoted_cons, ih, List.any_cons]
      cases lenient <;> cases isLineBreak c <;> cases text.any isLineBreak <;> rfl

theorem literalValue?_quoted (text : String) :
    literalValue? lenient (Naming.quoted text) =
      if text.toList.any isLineBreak && !lenient then none else some (unitsOf text.toList) := by
  have hopen : (Naming.quoted text).toList =
      '\x22' :: (Naming.escapeQuoted text.toList ++ ['\x22']) := by
    simp [Naming.quoted]
  rw [literalValue?, hopen]
  exact readLiteral_escapeQuoted text.toList

end

/-- The literal is to a reader the text and no other if line breaks may stand in it; and if they
may not, it is that too unless there is one in the text, and then no literal at all. -/
structure Spells (literal text : String) : Prop where
  lenient_iff : ∀ other : String,
    literalValue? true literal = some (unitsOf other.toList) ↔ other = text
  strict : literalValue? false literal =
    if text.toList.any isLineBreak then none else literalValue? true literal

theorem spells_quoted (text : String) : Spells (Naming.quoted text) text where
  lenient_iff other := by
    rw [literalValue?_quoted, Bool.not_true, Bool.and_false, if_neg Bool.false_ne_true,
      Option.some.injEq, unitsOf_injective.eq_iff, String.toList_inj, eq_comm]
  strict := by
    rw [literalValue?_quoted, literalValue?_quoted]
    simp

/-- What is printed for a text, as a type and as a name in quotes, reads back as that text; only a
line break is not escaped, and the literal ends in front of it. -/
theorem spells_printed (text : String) :
    Spells (Literal.string text).text text ∧
      (Naming.needsQuoting text → Spells (Naming.propertyKey text) text) := by
  refine ⟨spells_quoted text, fun hquoting => ?_⟩
  rw [Naming.propertyKey, if_pos hquoting]
  exact spells_quoted text

theorem spells_printed_quotes :
    (Literal.string "a\"b\\").text = "\"a\\\"b\\\\\"" ∧
      Spells (Literal.string "a\"b\\").text "a\"b\\" ∧
      Naming.needsQuoting "x-tag" ∧ Spells (Naming.propertyKey "x-tag") "x-tag" :=
  have hquoting : Naming.needsQuoting "x-tag" := by decide
  ⟨by decide, (spells_printed _).1, hquoting, (spells_printed _).2 hquoting⟩

/-- A line break goes into the text as it is, and what is printed is no literal. -/
theorem literalValue?_line_break :
    Naming.needsQuoting "a\nb" ∧
      literalValue? false (Literal.string "a\nb").text = none ∧
      literalValue? false (Naming.propertyKey "a\nb") = none := by
  decide

end SpecForm.TypeScript
