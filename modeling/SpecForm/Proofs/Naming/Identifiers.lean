import Mathlib
import SpecForm.Naming.Identifier

/-!
# Identifiers made of names

What is kept of a name are characters of identifiers, and a `_` in front keeps it from starting
with a digit and from being a reserved word.  So every name comes to an identifier that can be used,
and such an identifier comes to itself.
-/

namespace SpecForm.Naming

/-! ## Names that are identifiers -/

def IsUsable (name : String) : Prop := ¬needsQuoting name ∧ ¬isReserved name

theorem identifierChars_eq_self {started : Bool} {text : List Char}
    (h : ∀ c ∈ text, isIdentifierChar c) : identifierChars started false text = text := by
  induction text generalizing started with
  | nil => rfl
  | cons c text ih =>
      obtain ⟨hc, htext⟩ := List.forall_mem_cons.mp h
      have hseparator : ¬(c = '-' || c = '.' || c = ' ') := by
        simp only [Bool.or_eq_true, decide_eq_true_eq]
        rintro ((rfl | rfl) | rfl) <;> revert hc <;> decide
      rw [identifierChars, if_neg hseparator, if_pos hc, if_neg Bool.false_ne_true, ih htext]

theorem not_isDigit_of_isIdentifierStart {c : Char} (h : isIdentifierStart c) : ¬c.isDigit := by
  simp only [isIdentifierStart, Bool.or_eq_true, decide_eq_true_eq] at h
  rcases h with (halpha | rfl) | rfl
  · unfold Char.isAlpha Char.isUpper Char.isLower at halpha
    unfold Char.isDigit
    simp only [Bool.or_eq_true, Bool.and_eq_true, decide_eq_true_eq, ge_iff_le,
      UInt32.le_iff_toNat_le] at halpha ⊢
    have hnine : '9'.val.toNat = 57 := rfl
    have hupper : 'A'.val.toNat = 65 := rfl
    have hlower : 'a'.val.toNat = 97 := rfl
    omega
  · decide
  · decide

theorem isIdentifierChar_of_isIdentifierStart {c : Char} (h : isIdentifierStart c) :
    isIdentifierChar c := by
  simp only [isIdentifierStart, isIdentifierChar, Char.isAlphanum, Bool.or_eq_true] at h ⊢
  exact h.imp_left (Or.imp_left Or.inl)

theorem not_needsQuoting_iff {name : String} :
    ¬needsQuoting name ↔ ∃ first rest, name.toList = first :: rest ∧ isIdentifierStart first ∧
      ∀ c ∈ rest, isIdentifierChar c := by
  unfold needsQuoting
  cases name.toList with
  | nil => simp
  | cons first rest => simp

theorem identifier_eq_self {name : String} (h : IsUsable name) : identifier name = name := by
  obtain ⟨hquoting, hreserved⟩ := h
  obtain ⟨first, rest, hname, hfirst, hrest⟩ := not_needsQuoting_iff.mp hquoting
  have hkept : identifierChars false false name.toList = first :: rest := by
    rw [hname]
    exact identifierChars_eq_self (List.forall_mem_cons.mpr
      ⟨isIdentifierChar_of_isIdentifierStart hfirst, hrest⟩)
  have hname' : String.ofList (first :: rest) = name := by rw [← hname, String.ofList_toList]
  rw [identifier, hkept]
  dsimp only
  rw [hname', if_neg]
  simp [not_isDigit_of_isIdentifierStart hfirst, hreserved]

/-! ## Names that are made identifiers -/

theorem isIdentifierChar_toUpper {c : Char} (h : isIdentifierChar c) :
    isIdentifierChar c.toUpper := by
  by_cases hlower : c.isLower
  · have halpha : c.toUpper.isAlpha := by simp [Char.isAlpha, hlower]
    simp [isIdentifierChar, Char.isAlphanum, halpha]
  · rwa [Char.toUpper_eq_of_not_isLower hlower]

theorem isIdentifierChar_of_mem_identifierChars {started raiseNext : Bool} {text : List Char}
    {c : Char} (h : c ∈ identifierChars started raiseNext text) : isIdentifierChar c := by
  induction text generalizing started raiseNext with
  | nil => simp [identifierChars] at h
  | cons first rest ih =>
      rw [identifierChars] at h
      split at h
      · exact ih h
      · split at h
        · rename_i hfirst
          rcases List.mem_cons.mp h with rfl | hrest
          · split
            · exact isIdentifierChar_toUpper hfirst
            · exact hfirst
          · exact ih hrest
        · exact ih h

theorem isIdentifierStart_of_not_isDigit {c : Char} (h : isIdentifierChar c) (hdigit : ¬c.isDigit) :
    isIdentifierStart c := by
  simpa [isIdentifierChar, isIdentifierStart, Char.isAlphanum, hdigit] using h

theorem not_isReserved_of_head? {name : String} (h : name.toList.head? = some '_') :
    ¬isReserved name := by
  have hwords : ∀ word ∈ reservedWords, word.toList.head? ≠ some '_' := by decide
  intro hreserved
  exact hwords name (by simpa [isReserved] using hreserved) h

theorem isUsable_identifier (name : String) : IsUsable (identifier name) := by
  unfold identifier
  split
  · exact ⟨by decide, by decide⟩
  · rename_i first rest hkept
    have hchars : ∀ c ∈ first :: rest, isIdentifierChar c := fun c hc =>
      isIdentifierChar_of_mem_identifierChars (hkept ▸ hc)
    dsimp only
    split
    · have hname : ("_" ++ String.ofList (first :: rest)).toList = '_' :: first :: rest := by simp
      exact ⟨not_needsQuoting_iff.mpr ⟨'_', _, hname, by decide, hchars⟩,
        not_isReserved_of_head? (by rw [hname, List.head?_cons])⟩
    · rename_i hfree
      simp only [Bool.or_eq_true, not_or] at hfree
      obtain ⟨hdigit, hreserved⟩ := hfree
      obtain ⟨hfirst, hrest⟩ := List.forall_mem_cons.mp hchars
      have hstart := isIdentifierStart_of_not_isDigit hfirst hdigit
      exact ⟨not_needsQuoting_iff.mpr ⟨first, rest, String.toList_ofList, hstart, hrest⟩, hreserved⟩

/--
Whatever a name is, the identifier that is made of it has at least one character, only letters
and digits of ASCII, `_` and `$`, none of the digits in front, and is no reserved word.  What is
made of the identifier is the identifier.
-/
theorem identifier_usable (name : String) :
    identifier name ≠ "" ∧
      (∀ c ∈ (identifier name).toList, c.isAlphanum ∨ c = '_' ∨ c = '$') ∧
      (∀ first ∈ (identifier name).toList.head?, ¬first.isDigit) ∧
      identifier name ∉ reservedWords ∧ identifier (identifier name) = identifier name := by
  obtain ⟨hquoting, hreserved⟩ := isUsable_identifier name
  obtain ⟨first, rest, hmade, hfirst, hrest⟩ := not_needsQuoting_iff.mp hquoting
  refine ⟨?_, ?_, ?_, ?_, identifier_eq_self (isUsable_identifier name)⟩
  · rintro hempty
    simp [hempty] at hmade
  · intro c hc
    rw [hmade] at hc
    rcases List.mem_cons.mp hc with rfl | hmem
    · simpa [isIdentifierChar, or_assoc] using isIdentifierChar_of_isIdentifierStart hfirst
    · simpa [isIdentifierChar, or_assoc] using hrest c hmem
  · rw [hmade]
    rintro _ ⟨⟩
    exact not_isDigit_of_isIdentifierStart hfirst
  · simpa [isReserved] using hreserved

end SpecForm.Naming
