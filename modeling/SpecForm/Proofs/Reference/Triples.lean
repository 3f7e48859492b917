import Mathlib.Tactic.SplitIfs
import SpecForm.Proofs.Reference.RoundTrip

/-!
# Texts that decoding changes

A text is changed by decoding exactly if a `%` in it starts a triple and the bytes that come
out are UTF-8.  In a pointer this changes the tokens too, and it can be seen in the token itself:
an escape is no part of a triple.

That the change is never undone goes by a count.  A triple has one more of the characters `%` and
`5` than what it stands for, since these two are themselves written `%25` and `%35`; and neither
is touched where a pointer is taken apart.
-/

namespace SpecForm

namespace Text.Percent

variable {text rest : List Char} {c : Char}

/-! ## Triples -/

def startsTriple : List Char → Bool
  | '%' :: high :: low :: _ => (hexValue? high).isSome && (hexValue? low).isSome
  | _ => false

def hasTriple : List Char → Bool
  | [] => false
  | c :: rest => startsTriple (c :: rest) || hasTriple rest

theorem startsTriple_of_ne (h : c ≠ '%') (rest : List Char) : ¬startsTriple (c :: rest) := by
  simp [startsTriple, h]

theorem hasTriple_cons_of_ne (h : c ≠ '%') (rest : List Char) :
    hasTriple (c :: rest) = hasTriple rest := by
  simp [hasTriple, startsTriple_of_ne h]

theorem decode_of_not_hasTriple (h : ¬hasTriple text) :
    decode text = text.flatMap String.utf8EncodeChar := by
  fun_induction decode text with
  | case1 => rfl
  | case2 high low rest _ _ hlow hhigh ih => simp [hasTriple, startsTriple, hhigh, hlow] at h
  | case3 high low rest hne ih =>
      rw [hasTriple, Bool.or_eq_true, not_or] at h
      rw [ih h.2, ← List.flatMap_cons]
  | case4 c rest hne ih =>
      rw [hasTriple, Bool.or_eq_true, not_or] at h
      rw [ih h.2, List.flatMap_cons]

/-! ## Marks -/

/-- The characters that are counted; the triples of both end in `5`. -/
def isMark (c : Char) : Bool := c = '%' || c = '5'

def isMarkByte (byte : UInt8) : Bool := byte = 37 || byte = 53

theorem isMarkByte_ofNat {n : Nat} (h : n < 256) :
    isMarkByte (UInt8.ofNat n) = (decide (n = 37) || decide (n = 53)) := by
  have hvalue : (UInt8.ofNat n).toNat = n := by simp; omega
  simp [isMarkByte, ← UInt8.toNat_inj, hvalue]

theorem isMark_eq (c : Char) : isMark c = (decide (c.toNat = 37) || decide (c.toNat = 53)) := by
  simp [isMark, ← Char.toNat_inj]

theorem le_of_mem_utf8EncodeChar {byte : UInt8} (hc : 128 ≤ c.toNat)
    (h : byte ∈ String.utf8EncodeChar c) : 128 ≤ byte.toNat := by
  have hval : c.val.toNat = c.toNat := rfl
  simp only [String.utf8EncodeChar, hval] at h
  split_ifs at h <;> simp only [List.mem_cons, List.not_mem_nil, or_false] at h
  · omega
  · rcases h with rfl | rfl <;> simp <;> omega
  · rcases h with rfl | rfl | rfl <;> simp <;> omega
  · rcases h with rfl | rfl | rfl | rfl <;> simp <;> omega

theorem utf8EncodeChar_of_lt (hc : c.toNat < 128) :
    String.utf8EncodeChar c = [UInt8.ofNat c.toNat] := by
  have hval : c.val.toNat = c.toNat := rfl
  rw [String.utf8EncodeChar, hval, if_pos (by omega)]

theorem countP_utf8EncodeChar (c : Char) :
    (String.utf8EncodeChar c).countP isMarkByte = [c].countP isMark := by
  rcases Nat.lt_or_ge c.toNat 128 with hc | hc
  · rw [utf8EncodeChar_of_lt hc, List.countP_singleton, List.countP_singleton, isMark_eq,
      isMarkByte_ofNat (by omega)]
  · have hnone : ∀ byte ∈ String.utf8EncodeChar c, ¬isMarkByte byte := by
      intro byte hmem hmark
      have hbyte := le_of_mem_utf8EncodeChar hc hmem
      simp [isMarkByte] at hmark
      rcases hmark with rfl | rfl <;> contradiction
    have hmark : ¬isMark c := by
      rw [isMark_eq]
      simp
      omega
    rw [List.countP_eq_zero.mpr hnone, List.countP_singleton, if_neg hmark]

theorem countP_flatMap_utf8EncodeChar (text : List Char) :
    (text.flatMap String.utf8EncodeChar).countP isMarkByte = text.countP isMark := by
  induction text with
  | nil => rfl
  | cons c rest ih =>
      rw [List.flatMap_cons, List.countP_append, ih, countP_utf8EncodeChar,
        ← List.countP_append, List.singleton_append]

theorem range_of_hexValue? {n : Nat} (h : hexValue? c = some n) :
    (48 ≤ c.toNat ∧ c.toNat ≤ 57 ∧ n = c.toNat - 48) ∨
      (97 ≤ c.toNat ∧ c.toNat ≤ 102 ∧ n = c.toNat - 87) ∨
      (65 ≤ c.toNat ∧ c.toNat ≤ 70 ∧ n = c.toNat - 55) := by
  have hle : ∀ low high : Char, low ≤ c ∧ c ≤ high ↔ low.toNat ≤ c.toNat ∧ c.toNat ≤ high.toNat :=
    fun _ _ => Iff.rfl
  simp only [hexValue?, hle, Char.reduceToNat] at h
  split_ifs at h <;> simp only [Option.some.injEq] at h <;> omega

theorem countP_triple_le {high low : Char} {h l : Nat} (hhigh : hexValue? high = some h)
    (hlow : hexValue? low = some l) :
    [UInt8.ofNat (16 * h + l)].countP isMarkByte ≤ [low].countP isMark := by
  have hh := range_of_hexValue? hhigh
  have hl := range_of_hexValue? hlow
  rw [List.countP_singleton, List.countP_singleton, isMarkByte_ofNat (by omega)]
  by_cases hfive : l = 5
  · have hmark : isMark low := by
      rw [isMark_eq]
      simp
      omega
    rw [if_pos hmark]
    split <;> simp
  · rw [if_neg]
    · exact Nat.zero_le _
    · simp
      omega

theorem hasTriple_of_not_startsTriple (h : ¬startsTriple (c :: rest)) :
    hasTriple (c :: rest) = hasTriple rest := by
  simp [hasTriple, h]

theorem countP_kept_add_le (hstart : ¬startsTriple (c :: rest))
    (h : (decode rest).countP isMarkByte + (hasTriple rest).toNat ≤ rest.countP isMark) :
    (String.utf8EncodeChar c ++ decode rest).countP isMarkByte + (hasTriple (c :: rest)).toNat ≤
      (c :: rest).countP isMark := by
  rw [List.countP_append, countP_utf8EncodeChar, hasTriple_of_not_startsTriple hstart]
  simp only [List.countP_cons, List.countP_nil]
  omega

/-- If there is a triple, decoding takes a mark away. -/
theorem countP_decode_add_le (text : List Char) :
    (decode text).countP isMarkByte + (hasTriple text).toNat ≤ text.countP isMark := by
  fun_induction decode text with
  | case1 => simp [hasTriple]
  | case2 high low rest h l hlow hhigh ih =>
      have htriple := countP_triple_le hhigh hlow
      have hbound := Bool.toNat_le (hasTriple ('%' :: high :: low :: rest))
      have hpercent : isMark '%' := by decide
      simp only [List.countP_cons, List.countP_nil, hpercent, if_true] at htriple ⊢
      omega
  | case3 high low rest hne ih =>
      refine countP_kept_add_le ?_ ih
      simp only [startsTriple, Bool.and_eq_true, Option.isSome_iff_exists]
      rintro ⟨⟨h, hhigh⟩, ⟨l, hlow⟩⟩
      exact hne h l hhigh hlow
  | case4 c rest hne ih =>
      refine countP_kept_add_le ?_ ih
      unfold startsTriple
      split
      · rename_i heq
        cases heq
        exact absurd rfl (hne _ _ _ rfl)
      · exact Bool.false_ne_true

theorem toList_of_decodeText? {decoded : String} (h : decodeText? text = some decoded) :
    decode text = decoded.toList.flatMap String.utf8EncodeChar := by
  unfold decodeText? String.fromUTF8? at h
  split at h
  · have hbytes : (⟨(decode text).toArray⟩ : ByteArray) = decoded.toByteArray :=
      congrArg String.toByteArray (Option.some.inj h)
    have hencoded : (decode text).toByteArray = decoded.toList.utf8Encode := by
      rw [String.utf8Encode_toList, ← hbytes]
      exact ByteArray.ext (by simp)
    rwa [List.utf8Encode, List.toByteArray_inj] at hencoded
  · cases h

theorem not_hasTriple_of_countP_le {decoded : String} (h : decodeText? text = some decoded)
    (hcount : text.countP isMark ≤ decoded.toList.countP isMark) : ¬hasTriple text := by
  have hmarks := countP_decode_add_le text
  rw [toList_of_decodeText? h, countP_flatMap_utf8EncodeChar] at hmarks
  intro htriple
  rw [htriple, Bool.toNat_true] at hmarks
  omega

theorem head?_of_flatMap_utf8EncodeChar {back : List UInt8} (hc : c.toNat < 128)
    (h : text.flatMap String.utf8EncodeChar = String.utf8EncodeChar c ++ back) :
    text.head? = some c := by
  rw [utf8EncodeChar_of_lt hc, List.singleton_append] at h
  cases text with
  | nil => simp at h
  | cons other rest =>
      rw [List.head?_cons, Option.some.injEq, ← Char.toNat_inj]
      have hfirst : UInt8.ofNat c.toNat ∈ String.utf8EncodeChar other := by
        cases hbytes : String.utf8EncodeChar other with
        | nil => simp at hbytes
        | cons byte bytes => simp_all
      rcases Nat.lt_or_ge other.toNat 128 with hother | hother
      · rw [utf8EncodeChar_of_lt hother, List.mem_singleton, ← UInt8.toNat_inj] at hfirst
        simp at hfirst
        omega
      · have hbyte := le_of_mem_utf8EncodeChar hother hfirst
        simp at hbyte
        omega

end Text.Percent

namespace Json.Pointer

open Text.Percent

/-! ## Marks in a pointer -/

theorem countP_unescapeChars (text : List Char) :
    (unescapeChars text).countP isMark = text.countP isMark := by
  fun_induction unescapeChars text with
  | case1 => rfl
  | case2 rest ih => simp [isMark, ih]
  | case3 rest ih => simp [isMark, ih]
  | case4 c rest hone hzero ih => rw [List.countP_cons, List.countP_cons, ih]

theorem countP_intercalate (parts : List (List Char)) :
    (['/'].intercalate parts).countP isMark = parts.flatten.countP isMark := by
  have hslash : ¬isMark '/' := by decide
  induction parts with
  | nil => rfl
  | cons part parts ih =>
      cases parts with
      | nil => simp
      | cons next parts =>
          rw [List.intercalate_cons_cons, List.countP_append, List.countP_append, ih]
          simp [hslash]

theorem countP_splitOn (text : List Char) :
    (text.splitOn '/').flatten.countP isMark = text.countP isMark := by
  rw [← countP_intercalate, List.intercalate_splitOn]

theorem countP_flatMap_unescapeChars (parts : List (List Char)) :
    (parts.flatMap unescapeChars).countP isMark = parts.flatten.countP isMark := by
  induction parts with
  | nil => rfl
  | cons part parts ih => simp [countP_unescapeChars, ih]

theorem countP_tokens (pointer : String) :
    ((tokens pointer).flatMap String.toList).countP isMark = pointer.toList.countP isMark := by
  have hslash : ¬isMark '/' := by decide
  have htokens : ∀ text : List Char,
      (((text.splitOn '/').map fun token => String.ofList (unescapeChars token)).flatMap
        String.toList).countP isMark = text.countP isMark := by
    intro text
    rw [← countP_splitOn text, ← countP_flatMap_unescapeChars, List.flatMap_map]
    simp only [String.toList_ofList]
  unfold tokens
  split
  · rename_i htext
    simp [htext]
  · rename_i rest htext
    rw [htext, List.countP_cons_of_neg hslash, htokens]
  · exact htokens _

/-! ## Triples in a token -/

theorem startsTriple_cons_escapeChars (c : Char) (rest : List Char) :
    startsTriple (c :: escapeChars rest) = startsTriple (c :: rest) := by
  have htilde : hexValue? '~' = none := by decide
  have hslash : hexValue? '/' = none := by decide
  by_cases hc : c = '%'
  · subst hc
    match rest with
    | [] => rfl
    | [high] =>
        simp only [escapeChars]
        split_ifs <;> simp_all [startsTriple]
    | high :: low :: rest =>
        simp only [escapeChars]
        split_ifs <;> simp_all [startsTriple]
  · simp [startsTriple, hc]

theorem hasTriple_escapeChars (text : List Char) :
    hasTriple (escapeChars text) = hasTriple text := by
  fun_induction escapeChars text with
  | case1 => rfl
  | case2 rest ih =>
      rw [hasTriple_cons_of_ne (by decide), hasTriple_cons_of_ne (by decide), ih,
        hasTriple_cons_of_ne (by decide)]
  | case3 rest _ ih =>
      rw [hasTriple_cons_of_ne (by decide), hasTriple_cons_of_ne (by decide), ih,
        hasTriple_cons_of_ne (by decide)]
  | case4 c rest htilde hslash ih =>
      rw [hasTriple, hasTriple, ih, startsTriple_cons_escapeChars]

theorem hasTriple_append_slash (front back : List Char) :
    hasTriple (front ++ '/' :: back) = (hasTriple front || hasTriple back) := by
  have hslash : hexValue? '/' = none := by decide
  induction front with
  | nil => exact hasTriple_cons_of_ne (by decide) back
  | cons c front ih =>
      have hstart : startsTriple (c :: (front ++ '/' :: back)) = startsTriple (c :: front) := by
        by_cases hc : c = '%'
        · subst hc
          match front with
          | [] => cases back <;> simp [startsTriple, hslash]
          | [high] => simp [startsTriple, hslash]
          | high :: low :: front => rfl
        · simp [startsTriple, hc]
      rw [List.cons_append, hasTriple, ih, hstart, hasTriple, Bool.or_assoc]

theorem hasTriple_ofTokens (path : List String) :
    hasTriple (ofTokens path).toList = path.any fun token => hasTriple token.toList := by
  have hslash : ∀ rest, hasTriple ('/' :: rest) = hasTriple rest :=
    fun rest => hasTriple_cons_of_ne (by decide) rest
  induction path with
  | nil => rfl
  | cons token path ih =>
      rw [toList_ofTokens_cons, hslash, List.any_cons, ← ih]
      cases path with
      | nil => simp [ofTokens, hasTriple, hasTriple_escapeChars]
      | cons next path =>
          rw [toList_ofTokens_cons, hasTriple_append_slash, hasTriple_escapeChars, hslash]

end Json.Pointer

namespace Reference

open Json.Pointer Text.Percent

variable {fragment : String}

theorem decodeFragment_eq_self_iff :
    decodeFragment fragment = fragment ↔
      ¬hasTriple fragment.toList ∨ decodeText? fragment.toList = none := by
  constructor
  · intro h
    cases hdecoded : decodeText? fragment.toList with
    | none => exact .inr rfl
    | some decoded =>
        rw [decodeFragment, hdecoded, Option.getD_some] at h
        exact .inl (not_hasTriple_of_countP_le hdecoded (h ▸ Nat.le_refl _))
  · rintro (h | h)
    · rw [decodeFragment, decodeText?_of_decode (decode_of_not_hasTriple h), Option.getD_some,
        String.ofList_toList]
    · rw [decodeFragment, h, Option.getD_none]

theorem tokens_decodeFragment_eq_iff :
    tokens (decodeFragment fragment) = tokens fragment ↔ decodeFragment fragment = fragment := by
  refine ⟨fun h => decodeFragment_eq_self_iff.mpr ?_, congrArg tokens⟩
  cases hdecoded : decodeText? fragment.toList with
  | none => exact .inr rfl
  | some decoded =>
      rw [decodeFragment, hdecoded, Option.getD_some] at h
      refine .inl (not_hasTriple_of_countP_le hdecoded (Nat.le_of_eq ?_))
      rw [← countP_tokens, ← countP_tokens, h]

theorem isPointer_decodeFragment (h : isPointer fragment) : isPointer (decodeFragment fragment) := by
  cases hdecoded : decodeText? fragment.toList with
  | none => rwa [decodeFragment, hdecoded, Option.getD_none]
  | some decoded =>
      obtain ⟨rest, hrest⟩ := isPointer_iff.mp h
      have hbytes := toList_of_decodeText? hdecoded
      rw [hrest, decode_cons_of_ne (by decide)] at hbytes
      rw [decodeFragment, hdecoded, Option.getD_some, isPointer,
        head?_of_flatMap_utf8EncodeChar (by decide) hbytes.symm]
      rfl

end Reference

end SpecForm
