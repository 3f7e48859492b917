import SpecForm.Json.Value

/-!
# JSON Pointers

A pointer names a value inside a document by the tokens on the way to it.  In
its text each token follows a `/`, with `~` and `/` inside a token written as
`~0` and `~1`.  The empty pointer names the document itself.
-/

namespace SpecForm.Json.Pointer

/-! ## Tokens -/

def escapeChars : List Char → List Char
  | [] => []
  | c :: rest =>
      if c = '~' then '~' :: '0' :: escapeChars rest
      else if c = '/' then '~' :: '1' :: escapeChars rest
      else c :: escapeChars rest

/-- A `~` that starts neither escape stands for itself. -/
def unescapeChars : List Char → List Char
  | [] => []
  | '~' :: '1' :: rest => '/' :: unescapeChars rest
  | '~' :: '0' :: rest => '~' :: unescapeChars rest
  | c :: rest => c :: unescapeChars rest

def escape (token : String) : String := String.ofList (escapeChars token.toList)

def unescape (token : String) : String := String.ofList (unescapeChars token.toList)

/-- The unescaped tokens of a pointer; a missing first `/` is supplied. -/
def tokens (pointer : String) : List String :=
  match pointer.toList with
  | [] => []
  | '/' :: rest => (rest.splitOn '/').map fun token => String.ofList (unescapeChars token)
  | text => (text.splitOn '/').map fun token => String.ofList (unescapeChars token)

def child (pointer token : String) : String := pointer ++ "/" ++ escape token

def ofTokens (path : List String) : String := path.foldl child ""

def isPointer (fragment : String) : Bool := fragment.toList.head? == some '/'

/-! ## Array indices -/

def digitsValue? (digits : List Char) : Option Nat :=
  if digits.isEmpty then none
  else digits.foldl (fun value c =>
    value.bind fun n => if c.isDigit then some (10 * n + (c.toNat - '0'.toNat)) else none) (some 0)

/-- An index in the strict form: digits only, with no leading zero. -/
def strictIndex? (token : String) : Option Nat :=
  match token.toList with
  | '0' :: _ :: _ => none
  | digits => digitsValue? digits

/-- An index as a number is usually read: leading zeros and one plus sign are
allowed. -/
def looseIndex? (token : String) : Option Nat :=
  match token.toList with
  | '+' :: digits => digitsValue? digits
  | digits => digitsValue? digits

/-! ## Evaluation -/

def step? (value : Json) (token : String) : Option Json :=
  match value with
  | .object members => members.lookup token
  | .array items => (strictIndex? token).bind fun index => items[index]?
  | _ => none

def follow? (value : Json) : List String → Option Json
  | [] => some value
  | token :: rest => (step? value token).bind fun next => follow? next rest

/-- The value that a pointer names; a text that is neither empty nor starts with
`/` names nothing. -/
def eval? (pointer : String) (root : Json) : Option Json :=
  if pointer.isEmpty then some root
  else if isPointer pointer then follow? root (tokens pointer)
  else none

/-! ## Laws -/

theorem unescapeChars_escapeChars (text : List Char) :
    unescapeChars (escapeChars text) = text := by
  induction text with
  | nil => rfl
  | cons c rest ih =>
      by_cases ht : c = '~'
      · simp [escapeChars, unescapeChars, ht, ih]
      · by_cases hs : c = '/'
        · simp [escapeChars, unescapeChars, hs, ih]
        · rw [escapeChars, if_neg ht, if_neg hs, unescapeChars, ih]
          · exact fun _ h _ => ht h
          · exact fun _ h _ => ht h

@[simp] theorem unescape_escape (token : String) : unescape (escape token) = token := by
  simp [escape, unescape, unescapeChars_escapeChars]

theorem slash_notMem_escapeChars (text : List Char) : '/' ∉ escapeChars text := by
  induction text with
  | nil => simp [escapeChars]
  | cons c rest ih =>
      by_cases ht : c = '~'
      · simp [escapeChars, ht, ih]
      · by_cases hs : c = '/'
        · simp [escapeChars, hs, ih]
        · simp [escapeChars, ht, hs, ih, Ne.symm hs]

private theorem splitOn_escapeChars (text : List Char) :
    (escapeChars text).splitOn '/' = [escapeChars text] := by
  rw [List.splitOn_eq_splitOnP]
  apply List.splitOnP_eq_singleton
  intro c hc
  have hs : c ≠ '/' := fun e => slash_notMem_escapeChars text (e ▸ hc)
  simpa using hs

theorem toList_child (pointer token : String) :
    (child pointer token).toList = pointer.toList ++ '/' :: escapeChars token.toList := by
  simp [child, escape]

theorem tokens_child {pointer : String} (h : pointer.isEmpty ∨ isPointer pointer)
    (token : String) : tokens (child pointer token) = tokens pointer ++ [token] := by
  have hlast : String.ofList (unescapeChars (escapeChars token.toList)) = token := by
    simp [unescapeChars_escapeChars]
  unfold tokens
  rw [toList_child]
  match hp : pointer.toList with
  | [] => simp [splitOn_escapeChars, hlast]
  | c :: rest =>
      obtain rfl : c = '/' := by
        rcases h with h | h
        · rw [String.isEmpty_iff] at h
          simp [h] at hp
        · simpa [isPointer, hp] using h
      simp only [List.cons_append]
      rw [List.splitOn_eq_splitOnP, List.splitOnP_append_cons _ _ (by simp),
        ← List.splitOn_eq_splitOnP, ← List.splitOn_eq_splitOnP, splitOn_escapeChars]
      simp [hlast]

@[simp] theorem isPointer_child {pointer : String} (token : String) :
    isPointer (child pointer token) = (pointer.isEmpty || isPointer pointer) := by
  rw [isPointer, isPointer, toList_child]
  match hp : pointer.toList with
  | [] =>
      have : pointer = "" := by simpa using hp
      simp [this]
  | c :: rest =>
      have : pointer ≠ "" := fun e => by simp [e] at hp
      simp [this]

theorem tokens_foldl_child {pointer : String} (h : pointer.isEmpty ∨ isPointer pointer)
    (path : List String) : tokens (path.foldl child pointer) = tokens pointer ++ path := by
  induction path generalizing pointer with
  | nil => simp
  | cons token path ih =>
      have hchild : isPointer (child pointer token) := by simpa using h
      rw [List.foldl_cons, ih (Or.inr hchild), tokens_child h]
      simp

@[simp] theorem tokens_ofTokens (path : List String) : tokens (ofTokens path) = path := by
  have hempty : tokens "" = [] := rfl
  rw [ofTokens, tokens_foldl_child (Or.inl (String.isEmpty_iff.mpr rfl)), hempty, List.nil_append]

theorem foldl_child (pointer : String) (path : List String) :
    path.foldl child pointer = pointer ++ ofTokens path := by
  induction path generalizing pointer with
  | nil => simp [ofTokens]
  | cons token path ih =>
      rw [ofTokens, List.foldl_cons, List.foldl_cons, ih, ih (child "" token)]
      simp [child, String.append_assoc]

theorem ofTokens_cons (token : String) (path : List String) :
    ofTokens (token :: path) = child "" token ++ ofTokens path :=
  foldl_child (child "" token) path

theorem isPointer_ofTokens_cons (token : String) (path : List String) :
    isPointer (ofTokens (token :: path)) := by
  simp [isPointer, ofTokens_cons, toList_child, String.toList_append]

theorem append_ofTokens_inj {pointer : String} {path other : List String} :
    pointer ++ ofTokens path = pointer ++ ofTokens other ↔ path = other := by
  rw [String.append_right_inj]
  exact ⟨fun h => by simpa using congrArg tokens h, congrArg ofTokens⟩

theorem follow?_append (value : Json) (front back : List String) :
    follow? value (front ++ back) =
      (follow? value front).bind fun middle => follow? middle back := by
  induction front generalizing value with
  | nil => rfl
  | cons token rest ih =>
      simp only [List.cons_append, follow?]
      cases step? value token with
      | none => rfl
      | some next => simpa using ih next

theorem eval?_child (pointer token : String) (root : Json) :
    eval? (child pointer token) root = (eval? pointer root).bind fun value => step? value token := by
  have hne : (child pointer token).isEmpty = false := by
    simp [child]
  have one : ∀ value, follow? value [token] = step? value token := by
    intro value
    cases h : step? value token <;> simp [follow?, h]
  rw [eval?, eval?, hne, isPointer_child]
  by_cases he : pointer.isEmpty
  · have htokens := tokens_child (Or.inl he) token
    have hnone : tokens pointer = [] := by
      rw [String.isEmpty_iff] at he
      simp [tokens, he]
    simp [he, htokens, hnone, one]
  · by_cases hp : isPointer pointer
    · simp [he, hp, tokens_child (Or.inr hp) token, follow?_append, one]
    · simp [he, hp]

/-! ## Indices -/

private theorem foldl_digits (digits : List Char) (h : ∀ c ∈ digits, c.isDigit) (n : Nat) :
    digits.foldl (fun value c =>
      value.bind fun n => if c.isDigit then some (10 * n + (c.toNat - '0'.toNat)) else none)
        (some n) = some (Nat.ofDigitChars 10 digits n) := by
  induction digits generalizing n with
  | nil => simp
  | cons c rest ih =>
      have hc : c.isDigit := h c (by simp)
      rw [List.foldl_cons, Nat.ofDigitChars_cons, Option.bind_some, if_pos hc]
      exact ih (fun d hd => h d (by simp [hd])) _

private theorem digitsValue?_toDigits (i : Nat) : digitsValue? (Nat.toDigits 10 i) = some i := by
  have hdigits : ∀ c ∈ Nat.toDigits 10 i, c.isDigit := fun c hc =>
    Nat.isDigit_of_mem_toDigits (by omega) (by omega) hc
  rw [digitsValue?, if_neg (by simp), foldl_digits _ hdigits, Nat.ofDigitChars_ten_toDigits]

/-- Only `0` itself is written with a leading zero. -/
private theorem toDigits_ne_zero_cons (i : Nat) (c : Char) (rest : List Char) :
    Nat.toDigits 10 i ≠ '0' :: c :: rest := by
  induction i using Nat.strongRecOn generalizing c rest with
  | ind i ih =>
      intro h
      by_cases hlt : i < 10
      · simp [Nat.toDigits_of_lt_base hlt] at h
      · rw [Nat.toDigits_of_base_le (by omega) (by omega)] at h
        match hfront : Nat.toDigits 10 (i / 10) with
        | [] => exact Nat.toDigits_ne_nil hfront
        | [d] =>
            rw [hfront] at h
            simp only [List.cons_append, List.nil_append, List.cons.injEq] at h
            have hvalue := Nat.ofDigitChars_ten_toDigits (n := i / 10)
            rw [hfront, h.1] at hvalue
            simp [Nat.ofDigitChars_cons] at hvalue
            omega
        | d :: e :: front =>
            rw [hfront] at h
            simp only [List.cons_append, List.cons.injEq] at h
            exact ih (i / 10) (by omega) e front (by rw [hfront, h.1])

theorem strictIndex?_toString (i : Nat) : strictIndex? (toString i) = some i := by
  have hlist : (toString i).toList = Nat.toDigits 10 i := by simp
  rw [strictIndex?, hlist]
  split
  · rename_i c rest h
    exact absurd h (toDigits_ne_zero_cons i c rest)
  · exact digitsValue?_toDigits i

theorem looseIndex?_toString (i : Nat) : looseIndex? (toString i) = some i := by
  have hlist : (toString i).toList = Nat.toDigits 10 i := by simp
  rw [looseIndex?, hlist]
  split
  · rename_i digits h
    have hsign : '+' ∈ Nat.toDigits 10 i := by simp [h]
    exact absurd (Nat.isDigit_of_mem_toDigits (by omega) (by omega) hsign) (by decide)
  · exact digitsValue?_toDigits i

private theorem isDigit_of_foldl_digits {digits : List Char} {n i : Nat}
    (h : digits.foldl (fun value c =>
      value.bind fun n => if c.isDigit then some (10 * n + (c.toNat - '0'.toNat)) else none)
        (some n) = some i) : ∀ c ∈ digits, c.isDigit := by
  have hnone : ∀ more : List Char, more.foldl (fun value c =>
      value.bind fun n => if c.isDigit then some (10 * n + (c.toNat - '0'.toNat)) else none)
        (none : Option Nat) = none := by
    intro more
    induction more with
    | nil => rfl
    | cons d more ih => exact ih
  induction digits generalizing n with
  | nil => simp
  | cons c rest ih =>
      rw [List.foldl_cons, Option.bind_some] at h
      by_cases hc : c.isDigit
      · rw [if_pos hc] at h
        intro d hd
        rcases List.mem_cons.mp hd with rfl | hlater
        · exact hc
        · exact ih h d hlater
      · rw [if_neg hc, hnone] at h
        cases h

private theorem digit_range {c : Char} (h : c.isDigit) :
    48 ≤ c.toNat ∧ c.toNat ≤ 57 ∧ '0'.toNat = 48 := by
  refine ⟨?_, ?_, rfl⟩ <;> simp [Char.isDigit, UInt32.le_iff_toNat_le] at h
  · exact h.1
  · exact h.2

private theorem toDigits_of_isDigit {c : Char} (h : c.isDigit) :
    Nat.toDigits 10 (c.toNat - '0'.toNat) = [c] := by
  obtain ⟨hlow, hhigh, hzero⟩ := digit_range h
  have hlt : c.toNat - '0'.toNat < 10 := by omega
  rw [Nat.toDigits_of_lt_base hlt, List.singleton_inj, ← Char.toNat_inj,
    Nat.toNat_digitChar_of_lt_ten hlt]
  omega

private theorem toDigits_ofDigitChars {digits : List Char} (hdigits : ∀ c ∈ digits, c.isDigit)
    {n : Nat} (hn : 0 < n) :
    Nat.toDigits 10 (Nat.ofDigitChars 10 digits n) = Nat.toDigits 10 n ++ digits := by
  induction digits generalizing n with
  | nil => simp
  | cons c rest ih =>
      have hc : c.isDigit := hdigits c (by simp)
      obtain ⟨hlow, hhigh, hzero⟩ := digit_range hc
      rw [Nat.ofDigitChars_cons, ih (fun d hd => hdigits d (by simp [hd])) (by omega),
        ← Nat.toDigits_append_toDigits (by omega) hn (by omega), toDigits_of_isDigit hc,
        List.append_assoc, List.singleton_append]

theorem toString_of_strictIndex? {token : String} {i : Nat} (h : strictIndex? token = some i) :
    toString i = token := by
  rw [strictIndex?] at h
  split at h
  · cases h
  · rename_i hleading
    rw [digitsValue?] at h
    split at h
    · cases h
    · rename_i hne
      have hdigits := isDigit_of_foldl_digits h
      rw [foldl_digits _ hdigits, Option.some.injEq] at h
      subst h
      rw [Nat.toString_eq_ofList_toDigits, ← String.toList_inj, String.toList_ofList]
      match htext : token.toList with
      | [] => simp [htext] at hne
      | c :: rest =>
          rw [htext] at hdigits
          have hc : Nat.toDigits 10 (c.toNat - '0'.toNat) = [c] :=
            toDigits_of_isDigit (hdigits c (by simp))
          rw [Nat.ofDigitChars_cons, Nat.mul_zero, Nat.zero_add]
          match rest with
          | [] => exact hc
          | d :: rest =>
              rcases Nat.eq_zero_or_pos (c.toNat - '0'.toNat) with hvalue | hpos
              · rw [hvalue, Nat.toDigits_zero, List.singleton_inj] at hc
                exact absurd (hc ▸ htext) (hleading d rest)
              · rw [toDigits_ofDigitChars (fun e he => hdigits e (by simp [he])) hpos, hc,
                  List.singleton_append]

end SpecForm.Json.Pointer
