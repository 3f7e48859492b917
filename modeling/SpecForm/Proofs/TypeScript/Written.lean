import SpecForm.Proofs.TypeScript.Grammar

/-!
# Texts of phrases

The rules of the grammar for texts instead of tokens: what stands between marks, blanks and
separators is cut by itself, so the text of a phrase is put together from the texts of its parts.
-/

namespace SpecForm.TypeScript

/-- The text is cut, wherever a word ends behind it, into tokens that the grammar reads so. -/
def Written (text : String) (phrase : Phrase) : Prop :=
  ∃ tokens, Lexes text.toList tokens ∧ Reads tokens phrase

/-! ## Names -/

def reservedTypeNames : List String :=
  ["Record", "true", "false"] ++ Primitive.all.map Primitive.text

theorem isTypeName_reserved : ∀ name ∈ reservedTypeNames, isTypeName name := by decide

theorem not_endsWord_of_isNameChar {c : Char} (h : isNameChar c) : ¬endsWord c := by
  have hends : (' ' :: '\x22' :: marks).all (!isNameChar ·) := by decide
  intro hc
  have hname := List.all_eq_true.mp hends c (by simpa [endsWord, or_assoc] using hc)
  rw [h] at hname
  cases hname

theorem isNameChar_of_not_needsQuoting {name : String} (h : Naming.needsQuoting name = false)
    {c : Char} (hc : c ∈ name.toList) : isNameChar c := by
  unfold Naming.needsQuoting at h
  cases hlist : name.toList with
  | nil => simp [hlist] at h
  | cons first rest =>
      simp only [hlist, Bool.or_eq_false_iff, Bool.not_eq_false', List.all_eq_true] at h
      have hchar : Naming.isIdentifierChar c := by
        rcases List.mem_cons.mp (hlist ▸ hc) with rfl | hrest
        · have hstart := h.1
          simp only [Naming.isIdentifierStart, Bool.or_eq_true] at hstart
          rcases hstart with (halpha | hline) | hdollar <;>
            simp_all [Naming.isIdentifierChar, Char.isAlphanum]
        · exact h.2 c hrest
      simp [isNameChar, hchar]

theorem isWord_of_forall {text : String} (hne : text ≠ "")
    (h : ∀ c ∈ text.toList, ¬endsWord c) : isWord text := by
  rw [isWord, Bool.and_eq_true, List.all_eq_true]
  exact ⟨decide_eq_true hne, fun c hc => by simpa using h c hc⟩

theorem isWord_of_isTypeName {name : String} (h : isTypeName name) : isWord name := by
  refine isWord_of_forall ?_ fun c hc => ?_
  · rintro rfl
    revert h
    decide
  · rw [isTypeName, Bool.and_eq_true, List.all_eq_true] at h
    exact not_endsWord_of_isNameChar (h.2 c hc)

theorem ofWord?_primitive (name : Primitive) : ofWord? name.text = some (.primitive name) := by
  cases name <;> rfl

theorem ofWord?_of_notMem {word : String} (hfree : word ∉ reservedTypeNames) :
    ofWord? word =
      if isTypeName word then some (.named word)
      else (integer? word).map fun value => .literal (.int value) := by
  simp only [reservedTypeNames, List.cons_append, List.nil_append, List.mem_cons, not_or] at hfree
  obtain ⟨hrecord, htrue, hfalse, hprimitive⟩ := hfree
  have hnone : Primitive.all.find? (·.text = word) = none := by
    rw [List.find?_eq_none]
    intro name hname htext
    exact hprimitive (List.mem_map.mpr ⟨name, hname, of_decide_eq_true htext⟩)
  rw [ofWord?, if_neg htrue, if_neg hfalse, if_neg hrecord, hnone]

/-! ## Numbers -/

theorem isDigit_of_mem_toString {n : Nat} {c : Char} (h : c ∈ (toString n).toList) : c.isDigit := by
  rw [Nat.toString_eq_ofList_toDigits, String.toList_ofList] at h
  exact Nat.isDigit_of_mem_toDigits (by omega) (by omega) h

theorem exists_toString (value : Int) :
    ∃ n : Nat, (value = n ∧ toString value = toString n) ∨
      (value = -n ∧ toString value = "-" ++ toString n) := by
  cases value with
  | ofNat n => exact ⟨n, .inl ⟨rfl, rfl⟩⟩
  | negSucc n => exact ⟨n + 1, .inr ⟨rfl, rfl⟩⟩

theorem integer?_toString (value : Int) : integer? (toString value) = some value := by
  obtain ⟨n, ⟨rfl, htext⟩ | ⟨rfl, htext⟩⟩ := exists_toString value
  · rw [htext, integer?]
    split
    · rename_i digits hsign
      have hmem : '-' ∈ (toString n).toList := hsign ▸ List.mem_cons_self
      exact absurd (isDigit_of_mem_toString hmem) (by decide)
    · rw [Json.Pointer.strictIndex?_toString]
      rfl
  · rw [htext, integer?, String.toList_append]
    have hlist : "-".toList ++ (toString n).toList = '-' :: (toString n).toList := rfl
    rw [hlist]
    simp only [String.ofList_toList, Json.Pointer.strictIndex?_toString, Option.map_some]

theorem exists_toList_toString (value : Int) :
    ∃ first rest, (toString value).toList = first :: rest ∧ (first = '-' ∨ first.isDigit) ∧
      ∀ c ∈ rest, c.isDigit := by
  obtain ⟨n, ⟨-, htext⟩ | ⟨-, htext⟩⟩ := exists_toString value
  · cases hlist : (toString n).toList with
    | nil => exact absurd (String.toList_eq_nil_iff.mp hlist) (by simp)
    | cons first rest =>
        refine ⟨first, rest, htext ▸ hlist, .inr ?_, fun c hc => ?_⟩
        · exact isDigit_of_mem_toString (hlist ▸ List.mem_cons_self)
        · exact isDigit_of_mem_toString (hlist ▸ List.mem_cons_of_mem _ hc)
  · refine ⟨'-', (toString n).toList, ?_, .inl rfl, fun c hc => isDigit_of_mem_toString hc⟩
    rw [htext, String.toList_append]
    rfl

theorem isTypeName_toString (value : Int) : isTypeName (toString value) = false := by
  obtain ⟨first, rest, hlist, rfl | hdigit, -⟩ := exists_toList_toString value
  · rw [isTypeName, hlist, List.all_cons, show isNameChar '-' = false by decide, Bool.false_and,
      Bool.and_false]
  · rw [isTypeName, hlist, List.head?_cons, Option.any_some, hdigit, Bool.not_true, Bool.false_and]

theorem not_endsWord_of_isDigit {c : Char} (h : c.isDigit) : ¬endsWord c := by
  apply not_endsWord_of_isNameChar
  simp [isNameChar, Naming.isIdentifierChar, Char.isAlphanum, h]

theorem isWord_toString (value : Int) : isWord (toString value) := by
  obtain ⟨first, rest, hlist, hfirst, hrest⟩ := exists_toList_toString value
  refine isWord_of_forall (by rintro hempty; simp [hempty] at hlist) ?_
  rw [hlist, List.forall_mem_cons]
  refine ⟨?_, fun c hc => not_endsWord_of_isDigit (hrest c hc)⟩
  rcases hfirst with rfl | hdigit
  · decide
  · exact not_endsWord_of_isDigit hdigit

theorem ofWord?_toString (value : Int) :
    ofWord? (toString value) = some (.literal (.int value)) := by
  have hname := isTypeName_toString value
  have hfree : toString value ∉ reservedTypeNames := by
    intro hmem
    rw [isTypeName_reserved _ hmem] at hname
    cases hname
  rw [ofWord?_of_notMem hfree, hname, integer?_toString]
  rfl

/-! ## The rules -/

namespace Written

variable {text : String} {type : TypeExpr}

theorem word {word : String} (h : ofWord? word = some type) (hword : isWord word) :
    Written word (.operand type) :=
  ⟨_, .word hword, .word h⟩

theorem primitive (name : Primitive) : Written name.text (.operand (.primitive name)) := by
  refine word (ofWord?_primitive name) ?_
  cases name <;> decide

theorem string (value : String) :
    Written (Naming.quoted value) (.operand (.literal (.string value))) :=
  ⟨_, .quoted value, .quoted value⟩

theorem group (h : Written text (.type type)) : Written ("(" ++ text ++ ")") (.operand type) := by
  obtain ⟨tokens, hlexes, hreads⟩ := h
  refine ⟨_, ?_, .group hreads⟩
  have hclose : Lexes [')'] [.mark ')'] := .mark (by decide) .nil
  simpa using Lexes.mark (c := '(') (by decide) (hlexes.append hclose rfl)

theorem array (h : Written text (.operand type)) :
    Written (text ++ "[]") (.operand (.array type)) := by
  obtain ⟨tokens, hlexes, hreads⟩ := h
  refine ⟨_, ?_, .array hreads⟩
  have hclose : Lexes ['[', ']'] [.mark '[', .mark ']'] :=
    .mark (by decide) (.mark (by decide) .nil)
  simpa using hlexes.append hclose rfl

theorem record {keyText : String} {key : TypeExpr} (hkey : Written keyText (.type key))
    (h : Written text (.type type)) :
    Written ("Record<" ++ keyText ++ ", " ++ text ++ ">") (.operand (.record key type)) := by
  obtain ⟨keyTokens, hkeyLexes, hkeyReads⟩ := hkey
  obtain ⟨tokens, hlexes, hreads⟩ := h
  refine ⟨_, ?_, .record hkeyReads hreads⟩
  have hname : Lexes "Record".toList [.word "Record"] := .word (by decide)
  have hclose : Lexes ['>'] [.mark '>'] := .mark (by decide) .nil
  have hvalue := Lexes.mark (c := ',') (by decide) (hlexes.append hclose rfl).blank
  have hopen := Lexes.mark (c := '<') (by decide) (hkeyLexes.append hvalue rfl)
  simpa using hname.append hopen rfl

theorem int (value : Int) : Written (toString value) (.operand (.literal (.int value))) :=
  word (ofWord?_toString value) (isWord_toString value)

theorem bool (value : Bool) :
    Written (Literal.bool value).text (.operand (.literal (.bool value))) := by
  cases value with
  | false => exact word rfl (by decide)
  | true => exact word rfl (by decide)

theorem named {name : String} (h : isTypeName name) (hfree : name ∉ reservedTypeNames) :
    Written name (.operand (.named name)) := by
  refine word ?_ (isWord_of_isTypeName h)
  rw [ofWord?_of_notMem hfree, if_pos h]

theorem exists_key (name : String) :
    ∃ key : Token, Lexes (Naming.propertyKey name).toList [key] ∧ key.memberName? = some name := by
  unfold Naming.propertyKey
  cases hneeds : Naming.needsQuoting name with
  | true => exact ⟨.quoted name, .quoted name, rfl⟩
  | false =>
      refine ⟨.word name, .word (isWord_of_forall ?_ fun c hc => ?_),
        by simp [Token.memberName?, hneeds]⟩
      · rintro rfl
        revert hneeds
        decide
      · exact not_endsWord_of_isNameChar (isNameChar_of_not_needsQuoting hneeds hc)

theorem member (name : String) (optional : Bool) (h : Written text (.type type)) :
    Written (Naming.propertyKey name ++ (if optional then "?" else "") ++ ": " ++ text)
      (.member name optional type) := by
  obtain ⟨tokens, hlexes, hreads⟩ := h
  obtain ⟨key, hkey, hname⟩ := exists_key name
  refine ⟨_, ?_, .member optional hname hreads⟩
  have htype : Lexes (':' :: ' ' :: text.toList) (.mark ':' :: tokens) :=
    .mark (by decide) hlexes.blank
  cases optional with
  | false => simpa [optionalMark] using hkey.append htype rfl
  | true =>
      have hoptional : Lexes ('?' :: ':' :: ' ' :: text.toList)
          (.mark '?' :: .mark ':' :: tokens) := .mark (by decide) htype
      simpa [optionalMark] using hkey.append hoptional rfl

/-! ## Separated texts -/

theorem exists_between {α : Type} {phrase : α → Phrase} {separator : String} {mark : Char}
    (hseparator : Lexes.Separates separator.toList mark) {chunks : List (String × α)}
    (h : ∀ chunk ∈ chunks, Written chunk.1 (phrase chunk.2)) :
    ∃ pieces : List (List Token × α),
      Lexes (separator.intercalate (chunks.map Prod.fst)).toList
        (between mark (pieces.map Prod.fst)) ∧
      pieces.map Prod.snd = chunks.map Prod.snd ∧
      ∀ piece ∈ pieces, Reads piece.1 (phrase piece.2) := by
  obtain ⟨pieces, rfl, hpieces⟩ : ∃ pieces : List (String × List Token × α),
      pieces.map (fun piece => (piece.1, piece.2.2)) = chunks ∧
        ∀ piece ∈ pieces, Lexes piece.1.toList piece.2.1 ∧ Reads piece.2.1 (phrase piece.2.2) := by
    induction chunks with
    | nil => exact ⟨[], rfl, by simp⟩
    | cons first rest ih =>
        obtain ⟨hfirst, hrest⟩ := List.forall_mem_cons.mp h
        obtain ⟨tokens, htokens⟩ := hfirst
        obtain ⟨pieces, rfl, hpieces⟩ := ih hrest
        exact ⟨(first.1, tokens, first.2) :: pieces, rfl,
          List.forall_mem_cons.mpr ⟨htokens, hpieces⟩⟩
  have hlexes : ∀ chunk ∈ pieces.map fun piece => (piece.1.toList, piece.2.1),
      Lexes chunk.1 chunk.2 :=
    List.forall_mem_map.mpr fun piece hpiece => (hpieces piece hpiece).1
  refine ⟨pieces.map Prod.snd, ?_, by simp, ?_⟩
  · simpa [between, Function.comp_def, String.toList_intercalate] using
      Lexes.intercalate hseparator hlexes
  · exact List.forall_mem_map.mpr fun piece hpiece => (hpieces piece hpiece).2

theorem separates_bar : Lexes.Separates " | ".toList '|' :=
  ⟨by decide, List.cons_ne_nil _ _, fun h => (h.blank.mark (by decide)).blank⟩

theorem separates_and : Lexes.Separates " & ".toList '&' :=
  ⟨by decide, List.cons_ne_nil _ _, fun h => (h.blank.mark (by decide)).blank⟩

theorem separates_semicolon : Lexes.Separates "; ".toList ';' :=
  ⟨by decide, List.cons_ne_nil _ _, fun h => h.blank.mark (by decide)⟩

theorem part_of_operands (chunks : List (String × TypeExpr)) (hne : chunks ≠ [])
    (h : ∀ chunk ∈ chunks, Written chunk.1 (.operand chunk.2)) :
    Written (" & ".intercalate (chunks.map Prod.fst))
      (.part (gathered .intersection (chunks.map Prod.snd))) := by
  obtain ⟨pieces, hlexes, hvalues, hreads⟩ := exists_between separates_and h
  refine ⟨_, hlexes, hvalues ▸ .part ?_ hreads⟩
  rintro rfl
  exact hne (List.map_eq_nil_iff.mp hvalues.symm)

theorem type_of_parts (chunks : List (String × TypeExpr)) (hne : chunks ≠ [])
    (h : ∀ chunk ∈ chunks, Written chunk.1 (.part chunk.2)) :
    Written (" | ".intercalate (chunks.map Prod.fst))
      (.type (gathered .union (chunks.map Prod.snd))) := by
  obtain ⟨pieces, hlexes, hvalues, hreads⟩ := exists_between separates_bar h
  refine ⟨_, hlexes, hvalues ▸ .type ?_ hreads⟩
  rintro rfl
  exact hne (List.map_eq_nil_iff.mp hvalues.symm)

theorem object (chunks : List (String × String × Bool × TypeExpr))
    (h : ∀ chunk ∈ chunks, Written chunk.1 (.ofMember chunk.2)) :
    Written ("\x7b " ++ "; ".intercalate (chunks.map Prod.fst) ++ " \x7d")
      (.operand (.object (chunks.map Prod.snd))) := by
  obtain ⟨pieces, hlexes, hvalues, hreads⟩ := exists_between separates_semicolon h
  have hobject := Reads.object hreads
  rw [hvalues] at hobject
  refine ⟨_, ?_, hobject⟩
  have hclose : Lexes [' ', '\x7d'] [.mark '\x7d'] := .blank (.mark (by decide) .nil)
  simpa using Lexes.mark (c := '\x7b') (by decide) (hlexes.append hclose rfl).blank

theorem emptyObject : Written "\x7b\x7d" (.operand (.object [])) := by
  refine ⟨[.mark '\x7b', .mark '\x7d'], .mark (by decide) (.mark (by decide) .nil), ?_⟩
  exact .object (List.forall_mem_nil _)

/-! ## One operand, one part -/

theorem as_part (h : Written text (.operand type)) : Written text (.part type) := by
  have hpart := part_of_operands [(text, type)] (by simp) (by simpa using h)
  rwa [List.map_singleton, List.map_singleton, String.intercalate_singleton] at hpart

theorem as_type (h : Written text (.part type)) : Written text (.type type) := by
  have htype := type_of_parts [(text, type)] (by simp) (by simpa using h)
  rwa [List.map_singleton, List.map_singleton, String.intercalate_singleton] at htype

end Written

end SpecForm.TypeScript
