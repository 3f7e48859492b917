import SpecForm.Proofs.TypeScript.Grammar

/-!
# The parser and the grammar

The parser takes exactly the token lists that the grammar has.  What it takes off the front is a
phrase, by going down its functions; and it takes every phrase, by induction on how the grammar
makes it, where what is behind the phrase cannot be a part of it.  So the grammar gives each token
list at most one type.
-/

namespace SpecForm.TypeScript

/-! ## What is parsed is in the grammar -/

theorem expect_eq_some_iff {mark : Char} {tokens rest : List Token} :
    expect mark tokens = some rest ↔ tokens = .mark mark :: rest := by
  unfold expect
  split
  · simp
  · rename_i hmark
    simp only [reduceCtorEq, false_iff]
    rintro rfl
    exact hmark _ _ rfl

theorem optionalMark_append_optionalFirst (tokens : List Token) :
    optionalMark (optionalFirst tokens).1 ++ (optionalFirst tokens).2 = tokens := by
  unfold optionalFirst
  split
  · rename_i hmark
    exact (expect_eq_some_iff.mp hmark).symm
  · rfl

/-- What the parser takes off the front is in the relation with what it makes of it. -/
def Sound {α : Type} (parser : Parser α) (spells : List Token → α → Prop) : Prop :=
  ∀ tokens value rest, parser tokens = some (value, rest) →
    ∃ front, tokens = front ++ rest ∧ spells front value

section

variable {α : Type} {mark : Char} {item : Parser α} {spells : List Token → α → Prop}

theorem between_cons {first : List Token} {rest : List (List Token)} (h : rest ≠ []) :
    between mark (first :: rest) = first ++ .mark mark :: between mark rest := by
  rw [between, List.intercalate_cons_of_ne_nil h, List.append_assoc]
  rfl

theorem sound_separatedWithin (hitem : Sound item spells) (limit : Nat) :
    Sound (separatedWithin mark item limit) fun front values =>
      ∃ chunks : List (List Token × α), chunks ≠ [] ∧
        front = between mark (chunks.map Prod.fst) ∧ values = chunks.map Prod.snd ∧
        ∀ chunk ∈ chunks, spells chunk.1 chunk.2 := by
  induction limit with
  | zero => intro tokens values rest h; cases h
  | succ limit ih =>
      intro tokens values rest h
      obtain ⟨⟨value, behind⟩, hvalue, hbehind⟩ := Option.bind_eq_some_iff.mp h
      obtain ⟨front, htokens, hfront⟩ := hitem _ _ _ hvalue
      dsimp only at hbehind
      cases hmark : expect mark behind with
      | none =>
          rw [hmark] at hbehind
          obtain ⟨rfl, rfl⟩ := Prod.mk.inj (Option.some.inj hbehind)
          exact ⟨front, htokens, [(front, value)], by simp, by simp [between], rfl,
            by simpa using hfront⟩
      | some later =>
          rw [hmark] at hbehind
          obtain ⟨⟨more, last⟩, hmore, hlast⟩ := Option.bind_eq_some_iff.mp hbehind
          obtain ⟨rfl, rfl⟩ := Prod.mk.inj (Option.some.inj hlast)
          obtain ⟨_, hlater, chunks, hne, rfl, rfl, hchunks⟩ := ih _ _ _ hmore
          refine ⟨_, ?_, (front, value) :: chunks, by simp, rfl, rfl,
            List.forall_mem_cons.mpr ⟨hfront, hchunks⟩⟩
          rw [List.map_cons, between_cons (by simpa using hne), htokens,
            expect_eq_some_iff.mp hmark, hlater]
          simp

theorem sound_separated (hitem : Sound item spells) :
    Sound (separated mark item) fun front values =>
      ∃ chunks : List (List Token × α), chunks ≠ [] ∧
        front = between mark (chunks.map Prod.fst) ∧ values = chunks.map Prod.snd ∧
        ∀ chunk ∈ chunks, spells chunk.1 chunk.2 :=
  fun _ => sound_separatedWithin hitem _ _

end

theorem sound_suffixed {front : List Token} {type : TypeExpr} (h : Reads front (.operand type))
    {tokens rest : List Token} {outer : TypeExpr} (houter : suffixed type tokens = (outer, rest)) :
    ∃ more, tokens = more ++ rest ∧ Reads (front ++ more) (.operand outer) := by
  fun_induction suffixed type tokens generalizing front with
  | case1 type later ih =>
      obtain ⟨more, rfl, hmore⟩ := ih h.array houter
      exact ⟨.mark '[' :: .mark ']' :: more, rfl, by simpa using hmore⟩
  | case2 type tokens =>
      obtain ⟨rfl, rfl⟩ := Prod.mk.inj houter
      exact ⟨[], rfl, by simpa using h⟩

section

variable {inner : Parser TypeExpr} (h : Sound inner fun front type => Reads front (.type type))

include h

theorem sound_parseMember :
    Sound (parseMember inner) fun front member => Reads front (.ofMember member) := by
  intro tokens member rest hparse
  match tokens with
  | [] => cases hparse
  | key :: behind =>
      obtain ⟨name, hname, hparse⟩ := Option.bind_eq_some_iff.mp hparse
      obtain ⟨optional, later, hoptional⟩ : ∃ optional later,
          optionalFirst behind = (optional, later) := ⟨_, _, rfl⟩
      have hmark := optionalMark_append_optionalFirst behind
      simp only [hoptional] at hparse hmark
      obtain ⟨afterColon, hcolon, hparse⟩ := Option.bind_eq_some_iff.mp hparse
      obtain ⟨⟨type, afterType⟩, htype, hparse⟩ := Option.bind_eq_some_iff.mp hparse
      obtain ⟨rfl, rfl⟩ := Prod.mk.inj (Option.some.inj hparse)
      obtain ⟨front, hfront, hreads⟩ := h _ _ _ htype
      refine ⟨_, ?_, .member optional hname hreads⟩
      rw [← hmark, expect_eq_some_iff.mp hcolon, hfront]
      simp

theorem sound_parseMembers :
    Sound (parseMembers inner) fun front members =>
      ∃ chunks : List (List Token × String × Bool × TypeExpr),
        front = between ';' (chunks.map Prod.fst) ++ [.mark '\x7d'] ∧
        members = chunks.map Prod.snd ∧ ∀ chunk ∈ chunks, Reads chunk.1 (.ofMember chunk.2) := by
  intro tokens members rest hparse
  unfold parseMembers at hparse
  cases hempty : expect '\x7d' tokens with
  | some behind =>
      rw [hempty] at hparse
      obtain ⟨rfl, rfl⟩ := Prod.mk.inj (Option.some.inj hparse)
      exact ⟨[.mark '\x7d'], expect_eq_some_iff.mp hempty, [], rfl, rfl, by simp⟩
  | none =>
      rw [hempty] at hparse
      obtain ⟨⟨found, behind⟩, hfound, hbehind⟩ := Option.bind_eq_some_iff.mp hparse
      obtain ⟨last, hlast, hend⟩ := Option.bind_eq_some_iff.mp hbehind
      obtain ⟨rfl, rfl⟩ := Prod.mk.inj (Option.some.inj hend)
      obtain ⟨_, rfl, chunks, -, rfl, rfl, hchunks⟩ :=
        sound_separated (sound_parseMember h) _ _ _ hfound
      refine ⟨_, ?_, chunks, rfl, rfl, hchunks⟩
      rw [expect_eq_some_iff.mp hlast]
      simp

theorem sound_parseRecord :
    Sound (parseRecord inner) fun front type =>
      Reads (.word "Record" :: front) (.operand type) := by
  intro tokens type rest hparse
  obtain ⟨afterOpen, hopen, hparse⟩ := Option.bind_eq_some_iff.mp hparse
  obtain ⟨⟨key, afterKey⟩, hkey, hparse⟩ := Option.bind_eq_some_iff.mp hparse
  obtain ⟨afterComma, hcomma, hparse⟩ := Option.bind_eq_some_iff.mp hparse
  obtain ⟨⟨value, afterValue⟩, hvalue, hparse⟩ := Option.bind_eq_some_iff.mp hparse
  obtain ⟨afterClose, hclose, hparse⟩ := Option.bind_eq_some_iff.mp hparse
  obtain ⟨rfl, rfl⟩ := Prod.mk.inj (Option.some.inj hparse)
  obtain ⟨keyTokens, hkeyTokens, hkeyReads⟩ := h _ _ _ hkey
  obtain ⟨valueTokens, hvalueTokens, hvalueReads⟩ := h _ _ _ hvalue
  refine ⟨_, ?_, .record hkeyReads hvalueReads⟩
  rw [expect_eq_some_iff.mp hopen, hkeyTokens, expect_eq_some_iff.mp hcomma, hvalueTokens,
    expect_eq_some_iff.mp hclose]
  simp

theorem sound_parseGroup :
    Sound (parseGroup inner) fun front type => Reads (.mark '(' :: front) (.operand type) := by
  intro tokens type rest hparse
  obtain ⟨⟨found, afterType⟩, htype, hparse⟩ := Option.bind_eq_some_iff.mp hparse
  obtain ⟨afterClose, hclose, hparse⟩ := Option.bind_eq_some_iff.mp hparse
  obtain ⟨rfl, rfl⟩ := Prod.mk.inj (Option.some.inj hparse)
  obtain ⟨front, hfront, hreads⟩ := h _ _ _ htype
  refine ⟨_, ?_, .group hreads⟩
  rw [hfront, expect_eq_some_iff.mp hclose]
  simp

theorem sound_parseAtom :
    Sound (parseAtom inner) fun front type => Reads front (.operand type) := by
  intro tokens type rest hparse
  match tokens with
  | [] => cases hparse
  | .quoted text :: behind =>
      obtain ⟨rfl, rfl⟩ := Prod.mk.inj (Option.some.inj hparse)
      exact ⟨[.quoted text], rfl, .quoted text⟩
  | .word word :: behind =>
      rw [parseAtom] at hparse
      split at hparse
      · rename_i hrecord
        obtain ⟨front, rfl, hreads⟩ := sound_parseRecord h _ _ _ hparse
        exact ⟨.word word :: front, rfl, hrecord ▸ hreads⟩
      · obtain ⟨found, hword, hfound⟩ := Option.map_eq_some_iff.mp hparse
        obtain ⟨rfl, rfl⟩ := Prod.mk.inj hfound
        exact ⟨[.word word], rfl, .word hword⟩
  | .mark mark :: behind =>
      rw [parseAtom] at hparse
      split at hparse
      · rename_i hgroup
        obtain ⟨front, rfl, hreads⟩ := sound_parseGroup h _ _ _ hparse
        exact ⟨.mark mark :: front, rfl, hgroup ▸ hreads⟩
      · split at hparse
        · rename_i hobject
          subst hobject
          obtain ⟨⟨members, last⟩, hmembers, hlast⟩ := Option.map_eq_some_iff.mp hparse
          obtain ⟨rfl, rfl⟩ := Prod.mk.inj hlast
          obtain ⟨_, rfl, chunks, rfl, rfl, hchunks⟩ := sound_parseMembers h _ _ _ hmembers
          exact ⟨_, rfl, .object hchunks⟩
        · cases hparse

theorem sound_parseOperand :
    Sound (parseOperand inner) fun front type => Reads front (.operand type) := by
  intro tokens type rest hparse
  obtain ⟨⟨atom, behind⟩, hatom, hbehind⟩ := Option.map_eq_some_iff.mp hparse
  obtain ⟨front, rfl, hreads⟩ := sound_parseAtom h _ _ _ hatom
  obtain ⟨more, rfl, hmore⟩ := sound_suffixed hreads hbehind
  exact ⟨front ++ more, by simp, hmore⟩

theorem sound_parsePart :
    Sound (parsePart inner) fun front type => Reads front (.part type) := by
  intro tokens type rest hparse
  obtain ⟨⟨types, behind⟩, htypes, hbehind⟩ := Option.map_eq_some_iff.mp hparse
  obtain ⟨rfl, rfl⟩ := Prod.mk.inj hbehind
  obtain ⟨_, rfl, chunks, hne, rfl, rfl, hchunks⟩ :=
    sound_separated (sound_parseOperand h) _ _ _ htypes
  exact ⟨_, rfl, .part hne hchunks⟩

theorem sound_parseType :
    Sound (parseType inner) fun front type => Reads front (.type type) := by
  intro tokens type rest hparse
  obtain ⟨⟨types, behind⟩, htypes, hbehind⟩ := Option.map_eq_some_iff.mp hparse
  obtain ⟨rfl, rfl⟩ := Prod.mk.inj hbehind
  obtain ⟨_, rfl, chunks, hne, rfl, rfl, hchunks⟩ :=
    sound_separated (sound_parsePart h) _ _ _ htypes
  exact ⟨_, rfl, .type hne hchunks⟩

end

theorem sound_typeWithin (depth : Nat) :
    Sound (typeWithin depth) fun front type => Reads front (.type type) := by
  induction depth with
  | zero => intro tokens type rest hparse; cases hparse
  | succ depth ih => exact sound_parseType ih

/-! ## What is in the grammar is parsed -/

@[simp] theorem expect_mark (mark : Char) (rest : List Token) :
    expect mark (.mark mark :: rest) = some rest := expect_eq_some_iff.mpr rfl

def Stops (stops : List Char) (rest : List Token) : Prop :=
  ∀ mark ∈ stops, expect mark rest = none

theorem stops_mark {mark : Char} {stops : List Char} (h : mark ∉ stops) (rest : List Token) :
    Stops stops (.mark mark :: rest) := by
  intro other hother
  rw [expect, if_neg]
  rintro rfl
  exact h hother

theorem Stops.mono {stops more : List Char} {rest : List Token} (h : Stops more rest)
    (hsubset : stops ⊆ more) : Stops stops rest :=
  fun mark hmark => h mark (hsubset hmark)

theorem suffixed_of_stops {rest : List Token} {stops : List Char} (h : Stops stops rest)
    (hstops : '[' ∈ stops) (type : TypeExpr) : suffixed type rest = (type, rest) := by
  unfold suffixed
  split
  · have := h '[' hstops
    rw [expect_mark] at this
    cases this
  · rfl

section

variable {α : Type} {mark : Char} {item : Parser α} {chunks : List (List Token × α)}
  {rest : List Token}

theorem length_chunks_le (mark : Char) (chunks : List (List Token)) :
    chunks.length ≤ (between mark chunks).length + 1 := by
  induction chunks with
  | nil => simp
  | cons first later ih =>
      cases later with
      | nil => simp
      | cons second later =>
          rw [between_cons (by simp)]
          simp only [List.length_cons, List.length_append] at ih ⊢
          omega

theorem length_le_between {chunk : List Token} {chunks : List (List Token)}
    (h : chunk ∈ chunks) (mark : Char) : chunk.length ≤ (between mark chunks).length := by
  induction chunks with
  | nil => cases h
  | cons first later ih =>
      cases later with
      | nil =>
          obtain rfl := List.mem_singleton.mp h
          simp [between]
      | cons second later =>
          rw [between_cons (by simp), List.length_append, List.length_cons]
          rcases List.mem_cons.mp h with rfl | hlater
          · omega
          · have := ih hlater
            omega

theorem separatedWithin_between (stops : List Char)
    (hitem : ∀ chunk ∈ chunks, ∀ rest, Stops stops rest →
      item (chunk.1 ++ rest) = some (chunk.2, rest))
    (hne : chunks ≠ []) (hmark : mark ∉ stops) (hrest : Stops (mark :: stops) rest) {limit : Nat}
    (hlimit : chunks.length ≤ limit) :
    separatedWithin mark item limit (between mark (chunks.map Prod.fst) ++ rest) =
      some (chunks.map Prod.snd, rest) := by
  induction chunks generalizing limit with
  | nil => exact absurd rfl hne
  | cons first later ih =>
      obtain ⟨limit, rfl⟩ : ∃ less, limit = less + 1 := ⟨limit - 1, by simp at hlimit; omega⟩
      obtain ⟨hfirst, hlater⟩ := List.forall_mem_cons.mp hitem
      cases later with
      | nil =>
          have hone := hfirst rest (hrest.mono (List.subset_cons_self _ _))
          have hend : expect mark rest = none := hrest mark List.mem_cons_self
          simp [separatedWithin, between, hone, hend]
      | cons second later =>
          have hone :=
            hfirst (.mark mark :: (between mark ((second :: later).map Prod.fst) ++ rest))
              (stops_mark hmark _)
          have hmore : separatedWithin mark item limit
              (between mark ((second :: later).map Prod.fst) ++ rest) =
                some ((second :: later).map Prod.snd, rest) :=
            ih hlater (by simp) (by simpa using hlimit)
          rw [List.map_cons, between_cons (by simp), List.append_assoc, List.cons_append,
            separatedWithin, hone]
          simp only [Option.bind_eq_bind, Option.bind_some, expect_mark, hmore]
          rfl

theorem separated_between (stops : List Char)
    (hitem : ∀ chunk ∈ chunks, ∀ rest, Stops stops rest →
      item (chunk.1 ++ rest) = some (chunk.2, rest))
    (hne : chunks ≠ []) (hmark : mark ∉ stops) (hrest : Stops (mark :: stops) rest) :
    separated mark item (between mark (chunks.map Prod.fst) ++ rest) =
      some (chunks.map Prod.snd, rest) := by
  refine separatedWithin_between stops hitem hne hmark hrest ?_
  have := length_chunks_le mark (chunks.map Prod.fst)
  rw [List.length_map] at this
  rw [List.length_append]
  omega

end

/-- The parser takes the tokens of the phrase off the front, where what is behind them does not
belong to it. -/
def Parses (inner : Parser TypeExpr) (tokens : List Token) : Phrase → Prop
  | .operand type => ∀ rest, parseOperand inner (tokens ++ rest) = some (suffixed type rest)
  | .part type => ∀ rest, Stops ['&', '['] rest →
      parsePart inner (tokens ++ rest) = some (type, rest)
  | .type type => ∀ rest, Stops ['|', '&', '['] rest →
      parseType inner (tokens ++ rest) = some (type, rest)
  | .member name optional type => ∀ rest, Stops ['|', '&', '['] rest →
      parseMember inner (tokens ++ rest) = some ((name, optional, type), rest)

theorem optionalFirst_append (optional : Bool) (tokens : List Token) :
    optionalFirst (optionalMark optional ++ .mark ':' :: tokens) =
      (optional, .mark ':' :: tokens) := by
  cases optional <;> simp [optionalFirst, optionalMark, expect]

theorem Reads.exists_key {tokens : List Token} {member : String × Bool × TypeExpr}
    (h : Reads tokens (.ofMember member)) :
    ∃ key more, tokens = key :: more ∧ (key.memberName?).isSome := by
  cases h with
  | member optional hkey _ => exact ⟨_, _, rfl, Option.isSome_of_eq_some hkey⟩

theorem parseMembers_between {inner : Parser TypeExpr}
    {chunks : List (List Token × String × Bool × TypeExpr)} {rest : List Token}
    (hreads : ∀ chunk ∈ chunks, Reads chunk.1 (.ofMember chunk.2))
    (hparses : ∀ chunk ∈ chunks, Parses inner chunk.1 (.ofMember chunk.2)) :
    parseMembers inner (between ';' (chunks.map Prod.fst) ++ .mark '\x7d' :: rest) =
      some (chunks.map Prod.snd, rest) := by
  cases chunks with
  | nil => rfl
  | cons first later =>
      have hkey : expect '\x7d'
          (between ';' ((first :: later).map Prod.fst) ++ .mark '\x7d' :: rest) = none := by
        obtain ⟨key, more, hfirst, hkey⟩ := (hreads first List.mem_cons_self).exists_key
        obtain ⟨behind, hbehind⟩ : ∃ behind,
            between ';' ((first :: later).map Prod.fst) = key :: behind := by
          rw [List.map_cons, hfirst]
          cases later with
          | nil => exact ⟨more, by simp [between]⟩
          | cons second later => exact ⟨_, by rw [between_cons (by simp), List.cons_append]⟩
        rw [hbehind]
        cases key <;> simp_all [expect, Token.memberName?]
      have hmembers : separated ';' (parseMember inner)
          (between ';' ((first :: later).map Prod.fst) ++ .mark '\x7d' :: rest) =
            some ((first :: later).map Prod.snd, .mark '\x7d' :: rest) :=
        separated_between ['|', '&', '['] hparses (by simp) (by decide)
          (stops_mark (by decide) rest)
      rw [parseMembers, hkey]
      simp only [hmembers, Option.bind_eq_bind, Option.bind_some, expect_mark]

theorem Reads.parses {tokens : List Token} {phrase : Phrase} (h : Reads tokens phrase)
    {depth : Nat} (hdepth : tokens.length ≤ depth) : Parses (typeWithin depth) tokens phrase := by
  -- A type inside of another one is one level further down.
  have hinner {tokens : List Token} {type : TypeExpr} {depth : Nat}
      (ih : ∀ {depth : Nat}, tokens.length ≤ depth →
        Parses (typeWithin depth) tokens (.type type)) (hdepth : tokens.length < depth)
      {rest : List Token} (hrest : Stops ['|', '&', '['] rest) :
      typeWithin depth (tokens ++ rest) = some (type, rest) := by
    obtain ⟨less, rfl⟩ : ∃ less, depth = less + 1 := ⟨depth - 1, by omega⟩
    exact ih (by omega) rest hrest
  induction h generalizing depth with
  | @word word type hword =>
      intro rest
      have hrecord : word ≠ "Record" := by
        rintro rfl
        simp [ofWord?] at hword
      simp [parseOperand, parseAtom, hrecord, hword]
  | quoted text => exact fun rest => rfl
  | @group tokens type _ ih =>
      intro rest
      simp only [List.length_cons, List.length_append] at hdepth
      have htype : typeWithin depth (tokens ++ .mark ')' :: rest) =
          some (type, .mark ')' :: rest) :=
        hinner ih (by omega) (stops_mark (by decide) _)
      simp [parseOperand, parseAtom, parseGroup, htype]
  | @array tokens item _ ih =>
      intro rest
      rw [List.length_append] at hdepth
      have hitem : parseOperand (typeWithin depth) (tokens ++ .mark '[' :: .mark ']' :: rest) =
          some (suffixed item (.mark '[' :: .mark ']' :: rest)) := ih (by omega) _
      rw [List.append_assoc]
      exact hitem
  | @record keyTokens valueTokens key value _ _ ihkey ihvalue =>
      intro rest
      simp only [List.length_cons, List.length_append] at hdepth
      have hkey : typeWithin depth (keyTokens ++ .mark ',' :: (valueTokens ++ .mark '>' :: rest)) =
          some (key, .mark ',' :: (valueTokens ++ .mark '>' :: rest)) :=
        hinner ihkey (by omega) (stops_mark (by decide) _)
      have hvalue : typeWithin depth (valueTokens ++ .mark '>' :: rest) =
          some (value, .mark '>' :: rest) :=
        hinner ihvalue (by omega) (stops_mark (by decide) _)
      simp [parseOperand, parseAtom, parseRecord, hkey, hvalue]
  | @object chunks hchunks ih =>
      intro rest
      simp only [List.length_cons, List.length_append] at hdepth
      have hmembers : parseMembers (typeWithin depth)
          (between ';' (chunks.map Prod.fst) ++ .mark '\x7d' :: rest) =
            some (chunks.map Prod.snd, rest) := by
        refine parseMembers_between hchunks fun chunk hchunk => ?_
        have := length_le_between (List.mem_map_of_mem (f := Prod.fst) hchunk) ';'
        exact ih chunk hchunk (by omega)
      simp [parseOperand, parseAtom, hmembers]
  | @member key name tokens type optional hkey _ ih =>
      intro rest hrest
      simp only [List.length_cons, List.length_append] at hdepth
      have htype : typeWithin depth (tokens ++ rest) = some (type, rest) :=
        hinner ih (by omega) hrest
      simp [parseMember, hkey, optionalFirst_append, htype]
  | @part chunks hne _ ih =>
      intro rest hrest
      have hoperands : separated '&' (parseOperand (typeWithin depth))
          (between '&' (chunks.map Prod.fst) ++ rest) = some (chunks.map Prod.snd, rest) := by
        refine separated_between ['['] (fun chunk hchunk later hlater => ?_) hne (by decide) hrest
        have := length_le_between (List.mem_map_of_mem (f := Prod.fst) hchunk) '&'
        rw [ih chunk hchunk (by omega) later, suffixed_of_stops hlater (by decide)]
      rw [parsePart, hoperands]
      rfl
  | @type chunks hne _ ih =>
      intro rest hrest
      have hparts : separated '|' (parsePart (typeWithin depth))
          (between '|' (chunks.map Prod.fst) ++ rest) = some (chunks.map Prod.snd, rest) := by
        refine separated_between ['&', '['] (fun chunk hchunk later hlater => ?_) hne (by decide)
          hrest
        have := length_le_between (List.mem_map_of_mem (f := Prod.fst) hchunk) '|'
        exact ih chunk hchunk (by omega) later hlater
      rw [parseType, hparts]
      rfl

theorem parseTokens_eq_some_iff {tokens : List Token} {type : TypeExpr} :
    parseTokens tokens = some type ↔ Reads tokens (.type type) := by
  unfold parseTokens
  constructor
  · intro h
    split at h
    · rename_i found hfound
      obtain rfl := Option.some.inj h
      obtain ⟨front, hfront, hreads⟩ := sound_typeWithin _ _ _ _ hfound
      rw [List.append_nil] at hfront
      exact hfront ▸ hreads
    · cases h
  · intro h
    have hparse := h.parses (Nat.le_refl _) [] (by simp [Stops, expect])
    rw [List.append_nil] at hparse
    rw [typeWithin, hparse]

/-- The parser decides the grammar: what it makes of a text is what the text stands for. -/
theorem parse_eq_some_iff {text : String} {type : TypeExpr} :
    parse text = some type ↔ ∃ tokens, lex text = some tokens ∧ Reads tokens (.type type) := by
  rw [parse, Option.bind_eq_some_iff]
  exact exists_congr fun tokens => and_congr_right fun _ => parseTokens_eq_some_iff

end SpecForm.TypeScript
