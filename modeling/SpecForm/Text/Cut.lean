/-!
# Cutting texts apart

Texts are handled as lists of characters while they are taken apart.  A cut
drops its separator; it fails, rather than returning the whole text, when the
separator does not occur.
-/

namespace SpecForm.Text

def cut? (sep : Char) : List Char → Option (List Char × List Char)
  | [] => none
  | c :: rest =>
      if c = sep then some ([], rest)
      else (cut? sep rest).map fun (front, back) => (c :: front, back)

def cutLast? (sep : Char) : List Char → Option (List Char × List Char)
  | [] => none
  | c :: rest =>
      match cutLast? sep rest with
      | some (front, back) => some (c :: front, back)
      | none => if c = sep then some ([], rest) else none

def cutAt? (mark : List Char) : List Char → Option (List Char × List Char)
  | [] => if mark.isEmpty then some ([], []) else none
  | c :: rest =>
      if mark.isPrefixOf (c :: rest) then some ([], (c :: rest).drop mark.length)
      else (cutAt? mark rest).map fun (front, back) => (c :: front, back)

def before (sep : Char) (text : List Char) : List Char :=
  text.takeWhile (· ≠ sep)

def afterLast (sep : Char) (text : List Char) : List Char :=
  match cutLast? sep text with
  | some (_, back) => back
  | none => text

def occursIn (mark text : List Char) : Bool := (cutAt? mark text).isSome

theorem before_eq_self {sep : Char} {text : List Char} (h : sep ∉ text) :
    before sep text = text := by
  induction text with
  | nil => rfl
  | cons c rest ih =>
      simp only [List.mem_cons, not_or] at h
      have hc : c ≠ sep := fun e => h.1 e.symm
      simpa [before, hc] using ih h.2

theorem notMem_before (sep : Char) (text : List Char) : sep ∉ before sep text := by
  have hall := List.all_takeWhile (p := fun c => decide (c ≠ sep)) (l := text)
  intro h
  simpa using List.all_eq_true.mp hall sep h

theorem cut?_append {sep : Char} {front : List Char} (h : sep ∉ front)
    (back : List Char) : cut? sep (front ++ sep :: back) = some (front, back) := by
  induction front with
  | nil => simp [cut?]
  | cons c rest ih =>
      simp only [List.mem_cons, not_or] at h
      have hc : c ≠ sep := fun e => h.1 e.symm
      simp [cut?, hc, ih h.2]

theorem before_append {sep : Char} {front : List Char} (h : sep ∉ front)
    (back : List Char) : before sep (front ++ sep :: back) = front := by
  induction front with
  | nil => simp [before]
  | cons c rest ih =>
      simp only [List.mem_cons, not_or] at h
      have hc : c ≠ sep := fun e => h.1 e.symm
      simpa [before, hc] using ih h.2

theorem cut?_eq_none_iff {sep : Char} {text : List Char} :
    cut? sep text = none ↔ sep ∉ text := by
  induction text with
  | nil => simp [cut?]
  | cons c rest ih =>
      by_cases hc : c = sep
      · simp [cut?, hc]
      · have hs : ¬sep = c := fun e => hc e.symm
        simp [cut?, hc, hs, ih]

end SpecForm.Text
