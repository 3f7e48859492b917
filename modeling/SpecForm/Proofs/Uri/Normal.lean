import SpecForm.Uri.File

/-!
# Absolute URIs and normal form

A text that leaves nothing out means the same at every base.  Only a text without a
scheme, or without an authority that its scheme asks for, could take anything from the
base.  A URI that is written as it is rendered leaves nothing out, and means itself.
-/

namespace SpecForm.Uri

def IsNormal (text : String) : Prop := (parse text).toOption.map render = some text

instance (text : String) : Decidable (IsNormal text) :=
  inferInstanceAs (Decidable ((parse text).toOption.map render = some text))

/-! ## The start of a text -/

theorem isBlank_of_isDropped {c : Char} (h : isDropped c) : isBlank c := by
  simp only [isDropped, Bool.or_eq_true, decide_eq_true_eq] at h
  rcases h with (rfl | rfl) | rfl <;> decide

theorem dropWhile_isBlank {text : List Char} (h : ∀ c ∈ text, ¬isBlank c) :
    text.dropWhile isBlank = text := by
  cases text with
  | nil => rfl
  | cons c rest => exact List.dropWhile_cons_of_neg (h c List.mem_cons_self)

theorem exists_clean_append {front : List Char} (h : ∀ c ∈ front, ¬isBlank c)
    (hne : front ≠ []) (back : List Char) :
    ∃ rest, clean (front ++ back) = front ++ rest := by
  have hfirst : (front ++ back).dropWhile isBlank = front ++ back := by
    obtain ⟨c, rest, rfl⟩ := List.exists_cons_of_ne_nil hne
    exact List.dropWhile_cons_of_neg (h c List.mem_cons_self)
  have hlast : (front ++ back).reverse.dropWhile isBlank =
      back.reverse.dropWhile isBlank ++ front.reverse := by
    rw [List.reverse_append, List.dropWhile_append]
    split
    · rename_i hempty
      rw [List.isEmpty_iff.mp hempty, List.nil_append]
      exact dropWhile_isBlank fun c hc => h c (List.mem_reverse.mp hc)
    · rfl
  have hfilter : front.filter (!isDropped ·) = front := by
    refine List.filter_eq_self.mpr fun c hc => ?_
    rw [Bool.not_eq_true']
    exact Bool.eq_false_iff.mpr fun hdropped => h c hc (isBlank_of_isDropped hdropped)
  refine ⟨(back.reverse.dropWhile isBlank).reverse.filter (!isDropped ·), ?_⟩
  rw [clean, hfirst, hlast, List.reverse_append, List.reverse_reverse, List.filter_append, hfilter]

theorem rest_of_readScheme? {front back rest : List Char} {scheme : String} (h : ':' ∉ front)
    (hscheme : readScheme? (front ++ ':' :: back) = some (scheme, rest)) : rest = back := by
  rw [readScheme?, Text.cut?_append h] at hscheme
  cases front with
  | nil => cases hscheme
  | cons first letters =>
      obtain ⟨-, hread⟩ := Option.ite_none_right_eq_some.mp hscheme
      exact (Prod.mk.inj (Option.some.inj hread)).2.symm

/-! ## Schemes with an authority -/

theorem mem_of_schemeKind {scheme : String} (h : schemeKind scheme ≠ .other) :
    scheme ∈ ["file", "http", "https", "ws", "wss", "ftp"] := by
  unfold schemeKind at h
  split at h
  · rename_i hfile
    simp [hfile]
  · split at h
    · rename_i hspecial
      exact List.mem_cons_of_mem _ (List.contains_iff_mem.mp hspecial)
    · exact absurd rfl h

theorem plain_of_schemeKind {scheme : String} (h : schemeKind scheme ≠ .other) :
    ':' ∉ scheme.toList ∧ ∀ c ∈ scheme.toList ++ [':', '/', '/'], ¬isBlank c := by
  have hall : ∀ scheme ∈ ["file", "http", "https", "ws", "wss", "ftp"],
      ':' ∉ scheme.toList ∧ (scheme.toList ++ [':', '/', '/']).all (!isBlank ·) := by decide
  obtain ⟨hcolon, hblank⟩ := hall scheme (mem_of_schemeKind h)
  refine ⟨hcolon, fun c hc => ?_⟩
  simpa using List.all_eq_true.mp hblank c hc

theorem exists_of_bind_eq_ok {ε α β : Type} {first : Except ε α} {next : α → Except ε β}
    {result : β} (h : first >>= next = .ok result) :
    ∃ value, first = .ok value ∧ next value = .ok result := by
  cases first with
  | error _ => cases h
  | ok value => exact ⟨value, rfl, h⟩

structure HasAuthority (scheme : String) (uri : Uri) : Prop where
  scheme_eq : uri.scheme = scheme
  authority : ∃ authority, uri.authority = some authority

theorem HasAuthority.close {kind : SchemeKind} {scheme authority : String}
    {path : PathState × List Char} {uri : Uri}
    (h : (Except.ok (close kind scheme (some authority) path) : Except ParseError Uri) = .ok uri) :
    HasAuthority scheme uri := by
  obtain rfl := Except.ok.inj h
  exact ⟨rfl, authority, rfl⟩

theorem hasAuthority_of_readAuthority {scheme : String} {text : List Char} {uri : Uri}
    (h : readAuthority scheme text = .ok uri) : HasAuthority scheme uri := by
  obtain ⟨⟨userinfo, afterUser⟩, -, hhost⟩ := exists_of_bind_eq_ok h
  obtain ⟨host, -, hport⟩ := exists_of_bind_eq_ok hhost
  split at hport
  · cases hport
  · obtain ⟨⟨port, afterPort⟩, -, hclose⟩ := exists_of_bind_eq_ok hport
    exact .close hclose

theorem hasAuthority_of_readFileHost {text : List Char} {uri : Uri}
    (h : readFileHost text = .ok uri) : HasAuthority "file" uri := by
  unfold readFileHost at h
  dsimp only at h
  split at h
  · exact .close h
  · split at h
    · exact .close h
    · obtain ⟨host, -, hclose⟩ := exists_of_bind_eq_ok h
      split at hclose <;> exact .close hclose

theorem hasAuthority_of_readFile {text : List Char} {uri : Uri}
    (h : readFile none text = .ok uri) : HasAuthority "file" uri := by
  unfold readFile at h
  dsimp only at h
  split at h
  · split at h
    · exact hasAuthority_of_readFileHost h
    · split at h <;> exact .close h
  · split at h <;> exact .close h
  · obtain rfl := Except.ok.inj h
    exact ⟨rfl, "", rfl⟩

theorem hasAuthority_of_readAfterScheme {scheme : String} {text : List Char} {uri : Uri}
    (hkind : schemeKind scheme ≠ .other) (h : readAfterScheme none scheme text = .ok uri) :
    HasAuthority scheme uri := by
  unfold readAfterScheme at h
  dsimp only at h
  split at h
  · rename_i hfile
    obtain rfl : scheme = "file" := by
      unfold schemeKind at hfile
      split at hfile
      · assumption
      · split at hfile <;> cases hfile
    exact hasAuthority_of_readFile h
  · exact hasAuthority_of_readAuthority h
  · contradiction

theorem exists_slashes {text : List Char} (h : 2 ≤ (text.takeWhile isSlash).length) :
    ∃ first second rest, text = first :: second :: rest ∧ isSlash first ∧ isSlash second := by
  match text with
  | [] => simp at h
  | [c] =>
      have hle : ([c].takeWhile isSlash).length ≤ [c].length :=
        (List.takeWhile_sublist isSlash).length_le
      rw [List.length_singleton] at hle
      omega
  | first :: second :: rest =>
      refine ⟨first, second, rest, rfl, ?_⟩
      by_cases hfirst : isSlash first
      · by_cases hsecond : isSlash second
        · exact ⟨hfirst, hsecond⟩
        · simp [hfirst, hsecond] at h
      · simp [hfirst] at h

theorem readAfterScheme_of_slashes {text : List Char} (h : 2 ≤ (text.takeWhile isSlash).length)
    (base : Option Uri) (scheme : String) :
    readAfterScheme base scheme text = readAfterScheme none scheme text := by
  unfold readAfterScheme
  dsimp only
  split
  · obtain ⟨first, second, rest, rfl, hfirst, hsecond⟩ := exists_slashes h
    simp [readFile, hfirst, hsecond]
  · cases base.filter (·.scheme = scheme) with
    | none => rfl
    | some uri => exact if_neg (Nat.not_lt.mpr h)
  · rfl

theorem HasAuthority.exists_toList_render {scheme : String} {uri : Uri}
    (h : HasAuthority scheme uri) :
    ∃ back, uri.render.toList = (scheme.toList ++ [':', '/', '/']) ++ back := by
  obtain ⟨rfl, authority, hauthority⟩ := h
  refine ⟨authority.toList ++ (uri.path.toList ++ ((uri.query.elim "" ("?" ++ ·)).toList ++
    (uri.fragment.elim "" ("#" ++ ·)).toList)), ?_⟩
  simp [render, renderBase, hauthority, String.toList_append]

/-! ## Reading at a base -/

/-- Whether a text takes nothing from a base: it has a scheme of its own, and behind it two
slashes, if the scheme is one that could do without them only at a base. -/
def isAbsolute (text : String) : Bool :=
  (readScheme? (clean text.toList)).any fun (scheme, rest) =>
    schemeKind scheme = .other || 2 ≤ (rest.takeWhile isSlash).length

theorem join_of_isAbsolute {text : String} (h : isAbsolute text) (base : Uri) :
    base.join text = parse text := by
  unfold isAbsolute at h
  unfold join parse readReference
  dsimp only
  cases hscheme : readScheme? (clean text.toList) with
  | none => simp [hscheme] at h
  | some found =>
      obtain ⟨scheme, rest⟩ := found
      simp only [hscheme, Option.any_some, Bool.or_eq_true, decide_eq_true_eq] at h ⊢
      rcases h with hkind | hslashes
      · simp only [readAfterScheme, hkind]
      · exact readAfterScheme_of_slashes hslashes (some base) scheme

theorem resolve?_of_isAbsolute {text : String} (h : isAbsolute text) (base : String) :
    resolve? base text = (parse text).toOption.map render := by
  unfold resolve?
  cases parse base with
  | error _ => rfl
  | ok uri => dsimp only; rw [join_of_isAbsolute h]

theorem isAbsolute_of_isNormal {text : String} (h : IsNormal text) : isAbsolute text := by
  unfold IsNormal at h
  cases hparse : parse text with
  | error _ => simp [hparse, Except.toOption] at h
  | ok uri =>
      have hrender : uri.render = text := by simpa [hparse, Except.toOption] using h
      unfold parse readReference at hparse
      unfold isAbsolute
      cases hscheme : readScheme? (clean text.toList) with
      | none => simp [hscheme] at hparse
      | some found =>
          obtain ⟨scheme, rest⟩ := found
          simp only [hscheme] at hparse
          rw [Option.any_some, Bool.or_eq_true, decide_eq_true_eq, decide_eq_true_eq]
          by_cases hkind : schemeKind scheme = .other
          · exact .inl hkind
          · obtain ⟨hcolon, hblank⟩ := plain_of_schemeKind hkind
            obtain ⟨back, hback⟩ :=
              (hasAuthority_of_readAfterScheme hkind hparse).exists_toList_render
            obtain ⟨kept, hkept⟩ := exists_clean_append hblank (by simp) back
            rw [← hback, hrender] at hkept
            obtain rfl : rest = '/' :: '/' :: kept := by
              apply rest_of_readScheme? hcolon
              rw [← hscheme, hkept, List.append_assoc]
              rfl
            right
            simp [isSlash]

theorem resolve?_of_isNormal {text : String} (h : IsNormal text) (base : String) :
    resolve? base text = some text := by
  rw [resolve?_of_isAbsolute (isAbsolute_of_isNormal h)]
  exact h

end SpecForm.Uri
