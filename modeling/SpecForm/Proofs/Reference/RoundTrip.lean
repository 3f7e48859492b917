import SpecForm.Reference

/-!
# Pointers in references

A reference carries the tokens of a pointer under two codes.  Inside a token `~` and `/` are
escaped, and in the fragment any character may be written as the bytes of its UTF-8 form.  Both
are undone exactly: whichever way the pointer is written, its tokens are read back, and every
pointer in which each `~` starts an escape is the pointer of its tokens.
-/

namespace SpecForm

namespace Text.Percent

/-! ## Percent-encoded texts -/

def IsHexDigit (n : Nat) (c : Char) : Prop := c = hexDigit n ∨ c = (hexDigit n).toLower

/-- Bytes, each written as `%` and two digits. -/
inductive EncodesBytes : List UInt8 → List Char → Prop where
  | nil : EncodesBytes [] []
  | cons {byte : UInt8} {bytes : List UInt8} {high low : Char} {written : List Char} :
      IsHexDigit (byte.toNat / 16) high → IsHexDigit (byte.toNat % 16) low →
      EncodesBytes bytes written → EncodesBytes (byte :: bytes) ('%' :: high :: low :: written)

/-- A text in which any characters, and each `%`, are written as the bytes of their UTF-8
form. -/
inductive Encodes : List Char → List Char → Prop where
  | nil : Encodes [] []
  | keep {c : Char} {text written : List Char} : c ≠ '%' → Encodes text written →
      Encodes (c :: text) (c :: written)
  | escape {c : Char} {text bytes written : List Char} :
      EncodesBytes (String.utf8EncodeChar c) bytes → Encodes text written →
      Encodes (c :: text) (bytes ++ written)

theorem hexValue?_of_isHexDigit {n : Nat} {c : Char} (hn : n < 16) (h : IsHexDigit n c) :
    hexValue? c = some n := by
  have hall : ∀ n < 16, hexValue? (hexDigit n) = some n ∧
      hexValue? (hexDigit n).toLower = some n := by decide
  rcases h with rfl | rfl
  · exact (hall n hn).1
  · exact (hall n hn).2

theorem decode_append_of_encodesBytes {bytes : List UInt8} {written : List Char}
    (h : EncodesBytes bytes written) (rest : List Char) :
    decode (written ++ rest) = bytes ++ decode rest := by
  induction h with
  | nil => rfl
  | @cons byte bytes high low written hhigh hlow _ ih =>
      have hbyte := byte.toNat_lt
      have hvalue : UInt8.ofNat (16 * (byte.toNat / 16) + byte.toNat % 16) = byte := by
        rw [Nat.div_add_mod, UInt8.ofNat_toNat]
      rw [List.cons_append, List.cons_append, List.cons_append, decode,
        hexValue?_of_isHexDigit (by omega) hhigh, hexValue?_of_isHexDigit (by omega) hlow]
      simp only [hvalue, ih, List.cons_append]

theorem decode_cons_of_ne {c : Char} (h : c ≠ '%') (rest : List Char) :
    decode (c :: rest) = String.utf8EncodeChar c ++ decode rest := by
  rw [decode]
  exact fun _ _ _ hc _ => h hc

theorem decode_of_encodes {text written : List Char} (h : Encodes text written) :
    decode written = text.flatMap String.utf8EncodeChar := by
  induction h with
  | nil => rfl
  | keep hc _ ih => rw [decode_cons_of_ne hc, ih, List.flatMap_cons]
  | escape hbytes _ ih => rw [decode_append_of_encodesBytes hbytes, ih, List.flatMap_cons]

end Text.Percent

namespace Json.Pointer

/-! ## Escaped texts -/

/-- Every `~` starts an escape. -/
def IsEscaped (text : List Char) : Prop :=
  ∀ i < text.length, text[i]? = some '~' → text[i + 1]? = some '0' ∨ text[i + 1]? = some '1'

theorem IsEscaped.of_append (front : List Char) {back : List Char}
    (h : IsEscaped (front ++ back)) : IsEscaped back := by
  intro i hi htilde
  have hat : ∀ j, (front ++ back)[front.length + j]? = back[j]? := fun j => by
    rw [List.getElem?_append_right (Nat.le_add_right _ _), Nat.add_sub_cancel_left]
  have hnext := h (front.length + i) (by simpa using hi) (by rw [hat, htilde])
  rwa [Nat.add_assoc, hat] at hnext

theorem toList_ofTokens_cons (token : String) (path : List String) :
    (ofTokens (token :: path)).toList =
      '/' :: (escapeChars token.toList ++ (ofTokens path).toList) := by
  rw [ofTokens_cons, String.toList_append, toList_child]
  simp

theorem exists_tokens_of_isEscaped {text : List Char} (h : IsEscaped text) :
    ∃ token path, text = escapeChars token ++ (ofTokens path).toList := by
  fun_induction unescapeChars text with
  | case1 => exact ⟨[], [], rfl⟩
  | case2 rest ih =>
      obtain ⟨token, path, hrest⟩ := ih (h.of_append ['~', '1'])
      exact ⟨'/' :: token, path, by rw [hrest]; rfl⟩
  | case3 rest ih =>
      obtain ⟨token, path, hrest⟩ := ih (h.of_append ['~', '0'])
      exact ⟨'~' :: token, path, by rw [hrest]; rfl⟩
  | case4 c rest hone hzero ih =>
      obtain ⟨token, path, hrest⟩ := ih (h.of_append [c])
      by_cases hslash : c = '/'
      · subst hslash
        refine ⟨[], String.ofList token :: path, ?_⟩
        rw [hrest, toList_ofTokens_cons, String.toList_ofList]
        rfl
      · have htilde : c ≠ '~' := by
          rintro rfl
          have hnext := h 0 (Nat.succ_pos _) rfl
          cases rest with
          | nil => simp at hnext
          | cons next rest =>
              rcases hnext with hnext | hnext
              · exact hzero rest rfl (congrArg (· :: rest) (Option.some.inj hnext))
              · exact hone rest rfl (congrArg (· :: rest) (Option.some.inj hnext))
        refine ⟨c :: token, path, ?_⟩
        rw [hrest, escapeChars, if_neg htilde, if_neg hslash, List.cons_append]

theorem isPointer_iff {pointer : String} :
    isPointer pointer ↔ ∃ rest, pointer.toList = '/' :: rest := by
  unfold isPointer
  cases pointer.toList with
  | nil => simp
  | cons c rest => simp

theorem exists_ofTokens_of_isEscaped {pointer : String}
    (hpointer : pointer = "" ∨ isPointer pointer)
    (h : IsEscaped pointer.toList) : ∃ path, pointer = ofTokens path := by
  rcases hpointer with rfl | hpointer
  · exact ⟨[], rfl⟩
  · obtain ⟨rest, htext⟩ := isPointer_iff.mp hpointer
    rw [htext] at h
    obtain ⟨token, path, hrest⟩ := exists_tokens_of_isEscaped (h.of_append ['/'])
    refine ⟨String.ofList token :: path, String.toList_inj.mp ?_⟩
    rw [htext, hrest, toList_ofTokens_cons, String.toList_ofList]

end Json.Pointer

namespace Reference

open Json.Pointer Text.Percent

theorem decodeFragment_of_encodes {fragment written : String}
    (h : Encodes fragment.toList written.toList) : decodeFragment written = fragment := by
  rw [decodeFragment, decodeText?_of_decode (decode_of_encodes h), Option.getD_some,
    String.ofList_toList]

/--
Let a reference be a file without a `#`, a `#`, and the pointer of any tokens, in which any
characters other than `%` may be percent-encoded and each `%` is.  It is split into the file and
the pointer, and the pointer into the tokens.  The other way around, a text that is empty or
starts with `/`, and in which each `~` is followed by `0` or `1`, is the pointer of its tokens.
-/
theorem tokens_split_encoded :
    (∀ (path : List String) (file written : String), '#' ∉ file.toList →
      Encodes (ofTokens path).toList written.toList →
      split (file ++ "#" ++ written) = (file, ofTokens path) ∧
        tokens (split (file ++ "#" ++ written)).2 = path) ∧
    ∀ pointer : String, pointer = "" ∨ isPointer pointer → IsEscaped pointer.toList →
      ofTokens (tokens pointer) = pointer := by
  constructor
  · intro path file written hfile hencodes
    have hsplit : split (file ++ "#" ++ written) = (file, ofTokens path) := by
      rw [split_append hfile, decodeFragment_of_encodes hencodes]
    exact ⟨hsplit, by rw [hsplit, tokens_ofTokens]⟩
  · intro pointer hpointer hescaped
    obtain ⟨path, rfl⟩ := exists_ofTokens_of_isEscaped hpointer hescaped
    rw [tokens_ofTokens]

theorem tokens_split_encoded_letter :
    let path := ["#é%/"]
    let reference := "pets.yaml" ++ "#" ++ "/#%C3%a9%25~1"
    let pointer := "/a~1//~01"
    Encodes (ofTokens path).toList "/#%C3%a9%25~1".toList ∧
      split reference = ("pets.yaml", ofTokens path) ∧ tokens (split reference).2 = path ∧
      IsEscaped pointer.toList ∧ ofTokens (tokens pointer) = pointer := by
  intro path reference pointer
  have hbytes : EncodesBytes (String.utf8EncodeChar 'é') "%C3%a9".toList :=
    .cons (.inl rfl) (.inl rfl) (.cons (.inr rfl) (.inl rfl) .nil)
  have hmark : EncodesBytes (String.utf8EncodeChar '%') "%25".toList :=
    .cons (.inl rfl) (.inl rfl) .nil
  have hencodes : Encodes (ofTokens path).toList "/#%C3%a9%25~1".toList := by
    have htext : (ofTokens path).toList = ['/', '#', 'é', '%', '~', '1'] := by decide
    have hwritten : "/#%C3%a9%25~1".toList =
        '/' :: '#' :: ("%C3%a9".toList ++ ("%25".toList ++ ['~', '1'])) := by decide
    rw [htext, hwritten]
    exact .keep (by decide) (.keep (by decide) (.escape hbytes (.escape hmark
      (.keep (by decide) (.keep (by decide) .nil)))))
  have hescaped : IsEscaped pointer.toList := by unfold IsEscaped; decide
  obtain ⟨hsplit, htokens⟩ := tokens_split_encoded.1 path "pets.yaml" "/#%C3%a9%25~1" (by decide)
    hencodes
  exact ⟨hencodes, hsplit, htokens, hescaped,
    tokens_split_encoded.2 pointer (.inr (by decide)) hescaped⟩

end Reference

end SpecForm
