import SpecForm.Json.Pointer
import SpecForm.Text.Cut
import SpecForm.Text.Percent

/-!
# Reference strings

A reference names a document, a place inside one, or both: `pets.yaml#/Pet`,
`#node`, `pets.yaml`.  What follows the first `#` is the fragment, which is
percent-encoded in the reference and decoded here.
-/

namespace SpecForm.Reference

/-- A fragment that does not decode to UTF-8 keeps its written form. -/
def decodeFragment (fragment : String) : String :=
  (Text.Percent.decodeText? fragment.toList).getD fragment

def split (reference : String) : String × String :=
  match Text.cut? '#' reference.toList with
  | some (file, fragment) => (String.ofList file, decodeFragment (String.ofList fragment))
  | none => (reference, "")

def withoutFragment (uri : String) : String :=
  String.ofList (Text.before '#' uri.toList)

/-- A URI with a fragment added; an empty fragment adds nothing. -/
def withFragment (uri fragment : String) : String :=
  if fragment.isEmpty then uri else uri ++ "#" ++ fragment

/-- The name that a reference gives to its target: the last token of a pointer,
the name of an anchor, or the stem of the file. -/
def targetName (reference : String) : String :=
  let (file, fragment) := split reference
  if Json.Pointer.isPointer fragment then
    ((Json.Pointer.tokens fragment).getLast?).getD ""
  else if fragment.isEmpty then
    String.ofList (Text.before '.' (Text.afterLast '/' file.toList))
  else fragment

/-! ## Laws -/

theorem decodeFragment_eq_self {fragment : String} (h : '%' ∉ fragment.toList) :
    decodeFragment fragment = fragment := by
  simp [decodeFragment, Text.Percent.decodeText?_of_notMem h]

theorem split_append {file : String} (h : '#' ∉ file.toList) (fragment : String) :
    split (file ++ "#" ++ fragment) = (file, decodeFragment fragment) := by
  have hcut : Text.cut? '#' (file ++ "#" ++ fragment).toList =
      some (file.toList, fragment.toList) := by
    simpa using Text.cut?_append h fragment.toList
  rw [split, hcut]
  simp

theorem split_eq_self {file : String} (h : '#' ∉ file.toList) : split file = (file, "") := by
  rw [split, Text.cut?_eq_none_iff.mpr h]

theorem hash_notMem_withoutFragment (uri : String) : '#' ∉ (withoutFragment uri).toList := by
  simpa [withoutFragment] using Text.notMem_before '#' uri.toList

theorem withoutFragment_eq_self {uri : String} (h : '#' ∉ uri.toList) :
    withoutFragment uri = uri := by
  rw [withoutFragment, Text.before_eq_self h, String.ofList_toList]

theorem withoutFragment_append {uri : String} (h : '#' ∉ uri.toList) (fragment : String) :
    withoutFragment (uri ++ "#" ++ fragment) = uri := by
  have hbefore : Text.before '#' (uri ++ "#" ++ fragment).toList = uri.toList := by
    simpa using Text.before_append h fragment.toList
  rw [withoutFragment, hbefore, String.ofList_toList]

@[simp] theorem withoutFragment_withoutFragment (uri : String) :
    withoutFragment (withoutFragment uri) = withoutFragment uri :=
  withoutFragment_eq_self (hash_notMem_withoutFragment uri)

theorem cut?_withFragment {target : String} (h : '#' ∉ target.toList) (fragment : String) :
    Text.cut? '#' (withFragment target fragment).toList =
      if fragment.isEmpty then none else some (target.toList, fragment.toList) := by
  rw [withFragment]
  split
  · exact Text.cut?_eq_none_iff.mpr h
  · simpa using Text.cut?_append h fragment.toList

theorem append_hash_inj {uri other fragment mark : String} (huri : '#' ∉ uri.toList)
    (hother : '#' ∉ other.toList) :
    uri ++ "#" ++ fragment = other ++ "#" ++ mark ↔ uri = other ∧ fragment = mark := by
  constructor
  · intro h
    have htexts : uri.toList ++ '#' :: fragment.toList = other.toList ++ '#' :: mark.toList := by
      simpa using congrArg String.toList h
    have hcut := congrArg (Text.cut? '#') htexts
    rw [Text.cut?_append huri, Text.cut?_append hother] at hcut
    simpa [String.toList_inj] using hcut
  · rintro ⟨rfl, rfl⟩
    rfl

theorem withFragment_inj {target other fragment mark : String} (htarget : '#' ∉ target.toList)
    (hother : '#' ∉ other.toList) :
    withFragment target fragment = withFragment other mark ↔
      target = other ∧ fragment = mark := by
  constructor
  · intro h
    have hcut := congrArg (fun uri => Text.cut? '#' uri.toList) h
    simp only [cut?_withFragment htarget, cut?_withFragment hother] at hcut
    by_cases hf : fragment.isEmpty <;> by_cases hm : mark.isEmpty
    · rw [String.isEmpty_iff] at hf hm
      subst hf hm
      exact ⟨h, rfl⟩
    · simp [hf, hm] at hcut
    · simp [hf, hm] at hcut
    · simpa [hf, hm, String.toList_inj] using hcut
  · rintro ⟨rfl, rfl⟩
    rfl

end SpecForm.Reference
