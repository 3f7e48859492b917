import SpecForm.TypeScript.Printer

/-!
# Tokens of type texts

A type text is made of marks, words and texts in quotes.  A word ends where a mark, a blank or a
quote comes, so what stands before one of these can be cut into tokens without what follows; and
in quotes only the two characters that are escaped mean anything.
-/

namespace SpecForm.TypeScript

def marks : List Char :=
  ['|', '&', '(', ')', '[', ']', '\x7b', '\x7d', '<', '>', ',', ';', ':', '?']

def endsWord (c : Char) : Bool := c = ' ' || c = '\x22' || marks.contains c

def endsBefore (text : List Char) : Bool := text.head?.all endsWord

def isWord (text : String) : Bool := text ≠ "" && text.toList.all (!endsWord ·)

inductive Token where
  | mark (char : Char)
  | word (text : String)
  | quoted (text : String)
  deriving DecidableEq, Repr

/-! ## Cutting -/

/-- What is being read, with its characters so far, last first; between two tokens a word is
being read that has no character yet. -/
inductive Pending where
  | word (read : List Char)
  | quoted (read : List Char)
  | escaped (read : List Char)

def endedWord : List Char → List Token
  | [] => []
  | read => [.word (String.ofList read.reverse)]

@[simp] def lexFrom : Pending → List Char → Option (List Token)
  | .word read, [] => some (endedWord read)
  | .quoted _, [] | .escaped _, [] => none
  | .word read, c :: rest =>
      if c = ' ' then (lexFrom (.word []) rest).map (endedWord read ++ ·)
      else if c = '\x22' then (lexFrom (.quoted []) rest).map (endedWord read ++ ·)
      else if marks.contains c then
        (lexFrom (.word []) rest).map fun tokens => endedWord read ++ .mark c :: tokens
      else lexFrom (.word (c :: read)) rest
  | .quoted read, c :: rest =>
      if c = '\\' then lexFrom (.escaped read) rest
      else if c = '\x22' then
        (lexFrom (.word []) rest).map (.quoted (String.ofList read.reverse) :: ·)
      else lexFrom (.quoted (c :: read)) rest
  | .escaped read, c :: rest =>
      if c = '\\' || c = '\x22' then lexFrom (.quoted (c :: read)) rest else none

def lex (text : String) : Option (List Token) := lexFrom (.word []) text.toList

/-! ## Texts on their own -/

/-- Before anything that ends a word, the text is cut into the tokens. -/
def Lexes (text : List Char) (tokens : List Token) : Prop :=
  ∀ rest, endsBefore rest →
    lexFrom (.word []) (text ++ rest) = (lexFrom (.word []) rest).map (tokens ++ ·)

theorem Lexes.lex_eq {text : String} {tokens : List Token} (h : Lexes text.toList tokens) :
    lex text = some tokens := by
  have hlex := h [] rfl
  rw [List.append_nil] at hlex
  rw [lex, hlex]
  simp [endedWord]

namespace Lexes

variable {text tail : List Char} {tokens tailTokens : List Token} {c : Char}

theorem nil : Lexes [] [] := by
  intro rest _
  simp

theorem blank (h : Lexes text tokens) : Lexes (' ' :: text) tokens := by
  intro rest hrest
  rw [List.cons_append, lexFrom, if_pos rfl, h rest hrest]
  simp [endedWord, Function.comp_def]

theorem mark (hc : c ∈ marks) (h : Lexes text tokens) : Lexes (c :: text) (.mark c :: tokens) := by
  have hblank : c ≠ ' ' := by rintro rfl; revert hc; decide
  have hquote : c ≠ '\x22' := by rintro rfl; revert hc; decide
  intro rest hrest
  rw [List.cons_append, lexFrom, if_neg hblank, if_neg hquote, if_pos (by simpa using hc),
    h rest hrest, Option.map_map]
  rfl

theorem append (h : Lexes text tokens) (htail : Lexes tail tailTokens)
    (hends : endsBefore tail) : Lexes (text ++ tail) (tokens ++ tailTokens) := by
  intro rest hrest
  have hnext : endsBefore (tail ++ rest) := by
    cases tail with
    | nil => exact hrest
    | cons c tail => exact hends
  rw [List.append_assoc, h _ hnext, htail rest hrest, Option.map_map]
  simp [Function.comp_def]

/-! ## Words -/

theorem lexFrom_word (read : List Char) {word : List Char}
    (hword : ∀ c ∈ word, ¬endsWord c) (rest : List Char) :
    lexFrom (.word read) (word ++ rest) = lexFrom (.word (word.reverse ++ read)) rest := by
  induction word generalizing read with
  | nil => rfl
  | cons c word ih =>
      obtain ⟨hc, hword⟩ := List.forall_mem_cons.mp hword
      simp only [endsWord, Bool.or_eq_true, decide_eq_true_eq, not_or] at hc
      rw [List.cons_append, lexFrom, if_neg hc.1.1, if_neg hc.1.2, if_neg hc.2, ih _ hword]
      simp

theorem lexFrom_ended {read rest : List Char} (hrest : endsBefore rest) :
    lexFrom (.word read) rest = (lexFrom (.word []) rest).map (endedWord read ++ ·) := by
  cases rest with
  | nil => simp [endedWord]
  | cons c rest =>
      have hc : endsWord c := hrest
      simp only [endsWord, Bool.or_eq_true, decide_eq_true_eq] at hc
      rw [lexFrom, lexFrom]
      split
      · simp [endedWord]
      · split
        · simp [endedWord]
        · rename_i hblank hquote
          have hmark : marks.contains c := by simpa [hblank, hquote] using hc
          rw [if_pos hmark, if_pos hmark, Option.map_map]
          rfl

theorem word {text : String} (h : isWord text) : Lexes text.toList [.word text] := by
  intro rest hrest
  simp only [isWord, Bool.and_eq_true, decide_eq_true_eq, List.all_eq_true, Bool.not_eq_true',
    ← Bool.not_eq_true] at h
  obtain ⟨hne, hword⟩ := h
  have hread : endedWord text.toList.reverse = [.word text] := by
    cases hreverse : text.toList.reverse with
    | nil => simp_all
    | cons c read => simp [endedWord, ← hreverse]
  rw [lexFrom_word [] hword, List.append_nil, lexFrom_ended hrest, hread]

/-! ## Texts in quotes -/

theorem lexFrom_quoted (read text rest : List Char) :
    lexFrom (.quoted read) (Naming.escapeQuoted text ++ '\x22' :: rest) =
      (lexFrom (.word []) rest).map (.quoted (String.ofList (read.reverse ++ text)) :: ·) := by
  induction text generalizing read with
  | nil => simp [Naming.escapeQuoted]
  | cons c text ih =>
      rw [Naming.escapeQuoted]
      split
      · rename_i hc
        simp [ih, hc]
      · split
        · rename_i hc
          simp [ih, hc]
        · rename_i hbackslash hquote
          rw [List.cons_append, lexFrom, if_neg hbackslash, if_neg hquote, ih]
          simp

theorem quoted (text : String) : Lexes (Naming.quoted text).toList [.quoted text] := by
  intro rest _
  have hopen : (Naming.quoted text).toList ++ rest =
      '\x22' :: (Naming.escapeQuoted text.toList ++ '\x22' :: rest) := by
    simp [Naming.quoted]
  rw [hopen, lexFrom, if_neg (by decide), if_pos rfl, lexFrom_quoted, Option.map_map]
  simp [endedWord, Function.comp_def]

/-! ## Separated texts -/

/-- A separator that begins where words end and is cut into one mark. -/
structure Separates (separator : List Char) (mark : Char) : Prop where
  ends : endsBefore separator
  ne_nil : separator ≠ []
  lexes : ∀ {text tokens}, Lexes text tokens → Lexes (separator ++ text) (.mark mark :: tokens)

theorem intercalate {separator : List Char} (hseparator : Separates separator c)
    {chunks : List (List Char × List Token)} (h : ∀ chunk ∈ chunks, Lexes chunk.1 chunk.2) :
    Lexes (separator.intercalate (chunks.map Prod.fst))
      (List.intercalate [.mark c] (chunks.map Prod.snd)) := by
  induction chunks with
  | nil => exact .nil
  | cons first rest ih =>
      obtain ⟨hfirst, hrest⟩ := List.forall_mem_cons.mp h
      cases rest with
      | nil => simpa using hfirst
      | cons second rest =>
          simp only [List.map_cons, List.intercalate_cons_cons] at ih ⊢
          rw [List.append_assoc, List.append_assoc]
          refine hfirst.append (hseparator.lexes (ih hrest)) ?_
          cases separator with
          | nil => exact absurd rfl hseparator.ne_nil
          | cons c separator => exact hseparator.ends

end Lexes

end SpecForm.TypeScript
