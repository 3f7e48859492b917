import SpecForm.Proofs.Document.Tree

/-!
# Walking and evaluating

A pointer can be walked from node to node, by its tokens, or evaluated against the whole
document.  The two agree about every token but one kind: the index of an item that is written
with a sign or with leading zeros.  The walk takes such a step, but the node that it comes to
has the index in its pointer as it was written, and by this pointer there is nothing in the
document.
-/

namespace SpecForm

namespace Json.Pointer

variable {value middle : Json} {token : String} {tokens front : List String}

/-- The token is the index of an item, but not written as in a pointer. -/
structure IsStray (value : Json) (token : String) : Prop where
  strict : strictIndex? token = none
  loose : ∃ items index, value = .array items ∧ looseIndex? token = some index ∧
    index < items.length

def Strays (value : Json) (tokens : List String) : Prop :=
  ∃ front token middle, tokens = front ++ [token] ∧ follow? value front = some middle ∧
    IsStray middle token

theorem looseIndex?_of_strictIndex? {i : Nat} (h : strictIndex? token = some i) :
    looseIndex? token = some i := by
  rw [← toString_of_strictIndex? h, looseIndex?_toString]

theorem IsStray.step? (h : IsStray value token) : step? value token = none := by
  obtain ⟨items, index, rfl, -, -⟩ := h.loose
  simp [Pointer.step?, h.strict]

theorem Strays.follow? (h : Strays value tokens) : follow? value tokens = none := by
  obtain ⟨front, token, middle, rfl, hfront, hstray⟩ := h
  simp [follow?_append, hfront, Pointer.follow?, hstray.step?]

theorem IsStray.strays (h : IsStray value token) : Strays value [token] :=
  ⟨[], token, value, rfl, rfl, h⟩

theorem Strays.cons {next : Json} (hstep : Pointer.step? value token = some next)
    (h : Strays next tokens) : Strays value (token :: tokens) := by
  obtain ⟨front, last, middle, rfl, hfront, hstray⟩ := h
  exact ⟨token :: front, last, middle, rfl, by simp [Pointer.follow?, hstep, hfront], hstray⟩

theorem eval?_eq_follow? {pointer : String} (h : pointer = "" ∨ isPointer pointer) (root : Json) :
    eval? pointer root = Pointer.follow? root (Pointer.tokens pointer) := by
  unfold eval?
  rcases h with rfl | h
  · rfl
  · have hempty : pointer.isEmpty = false := by
      by_contra hempty
      rw [Bool.not_eq_false, String.isEmpty_iff] at hempty
      simp [hempty, isPointer] at h
    simp [hempty, h]

end Json.Pointer

namespace Node

open Json.Pointer

variable {node : Node} {token : String} {tokens : List String}

/-! ## One step -/

theorem value_child? (h : ¬IsStray node.value token) :
    (node.child? token).map value = step? node.value token := by
  unfold child? member? has
  cases hvalue : node.value with
  | object members =>
      cases hlookup : members.lookup token with
      | none => simp [Json.member?, step?, hlookup]
      | some next => simp [Json.member?, step?, hvalue, hlookup, value_step]
  | array items =>
      cases hloose : looseIndex? token with
      | none =>
          have hstrict : strictIndex? token = none := by
            by_contra hne
            obtain ⟨i, hi⟩ := Option.ne_none_iff_exists'.mp hne
            simp [looseIndex?_of_strictIndex? hi] at hloose
          simp [step?, hstrict]
      | some i =>
          by_cases hi : i < items.length
          · have hstrict : strictIndex? token = some i := by
              cases hstrict : strictIndex? token with
              | none => exact absurd ⟨hstrict, items, i, hvalue, hloose, hi⟩ h
              | some j =>
                  rw [← hloose, looseIndex?_of_strictIndex? hstrict]
            simp [step?, hstrict, hi, value_step, hvalue]
          · have hnone : step? (.array items) token = none := by
              cases hstrict : strictIndex? token with
              | none => simp [step?, hstrict]
              | some j =>
                  obtain rfl : i = j := by
                    simpa [hloose] using looseIndex?_of_strictIndex? hstrict
                  simpa [step?, hstrict] using hi
            simp [hnone, hi]
  | null | bool | int | float | string => simp [step?]

theorem value_child?_of_isStray (h : IsStray node.value token) :
    (node.child? token).map value = some .null := by
  obtain ⟨items, index, hvalue, hloose, hindex⟩ := h.loose
  have hstep : (node.step token).value = .null := by rw [value_step, h.step?, Option.getD_none]
  simp [child?, hvalue, hloose, hindex, hstep]

/-! ## All steps -/

theorem follow?_of_value_eq_null (h : node.value = .null) (token : String) (rest : List String) :
    node.follow? (token :: rest) = none := by
  simp [follow?, child?, h]

theorem value_follow? (h : ¬Strays node.value tokens) :
    (node.follow? tokens).map value = Json.Pointer.follow? node.value tokens := by
  induction tokens generalizing node with
  | nil => rfl
  | cons token rest ih =>
      rw [follow?, Json.Pointer.follow?]
      by_cases hstray : IsStray node.value token
      · rw [hstray.step?, Option.bind_none]
        obtain ⟨next, hnext, hnull⟩ := Option.map_eq_some_iff.mp (value_child?_of_isStray hstray)
        rw [hnext, Option.bind_some]
        cases rest with
        | nil => exact absurd hstray.strays h
        | cons second rest => simp [follow?_of_value_eq_null hnull]
      · have hstep := value_child? hstray
        cases hchild : node.child? token with
        | none =>
            rw [hchild, Option.map_none] at hstep
            simp [← hstep]
        | some next =>
            rw [hchild, Option.map_some] at hstep
            rw [← hstep, Option.bind_some, Option.bind_some]
            exact ih fun hrest => h (hrest.cons hstep.symm)

theorem value_follow?_of_strays (h : Strays node.value tokens) :
    (node.follow? tokens).map value = some .null := by
  obtain ⟨front, token, middle, rfl, hfront, hstray⟩ := h
  have hwalk : (node.follow? front).map value = some middle := by
    rw [value_follow?, hfront]
    intro hstrays
    simp [hstrays.follow?] at hfront
  obtain ⟨reached, hreached, rfl⟩ := Option.map_eq_some_iff.mp hwalk
  rw [follow?_append, hreached, Option.bind_some]
  simpa [follow?] using value_child?_of_isStray hstray

/--
In every document and for every pointer, walking the tokens from the root comes to a node
exactly if evaluating the pointer gives a value, and the node has that value; the same holds of
one step from any node, to the member or the item that a token names.  There is one exception,
the index of an item that is written with a sign or with leading zeros.  It names nothing, but
the walk steps there, and the node that it comes to shows `null`.  If such an index comes last,
the walk ends with that node, and evaluation gives nothing; if another token comes after it,
both give nothing.
-/
theorem value_follow?_eq_eval? (document : Document) (pointer : String)
    (hpointer : pointer = "" ∨ isPointer pointer) :
    let root := rootOf document
    (¬Strays document.root (Json.Pointer.tokens pointer) →
      (root.follow? (Json.Pointer.tokens pointer)).map value = eval? pointer document.root) ∧
    (Strays document.root (Json.Pointer.tokens pointer) →
      (root.follow? (Json.Pointer.tokens pointer)).map value = some .null ∧
        eval? pointer document.root = none) ∧
    ∀ (node : Node) (token : String),
      (¬IsStray node.value token → (node.child? token).map value = step? node.value token) ∧
      (IsStray node.value token →
        (node.child? token).map value = some .null ∧ step? node.value token = none) := by
  intro root
  have hroot : root.value = document.root := rfl
  rw [eval?_eq_follow? hpointer, ← hroot]
  exact ⟨value_follow?, fun h => ⟨value_follow?_of_strays h, h.follow?⟩, fun node token =>
    ⟨value_child?, fun h => ⟨value_child?_of_isStray h, h.step?⟩⟩⟩

theorem value_follow?_eq_eval?_escapes :
    let document := Document.ofValue (.object [("a/b", .array [.null, .object [("~1", .int 4)]])])
    ((rootOf document).follow? (Json.Pointer.tokens "/a~1b/1/~01")).map value = some (.int 4) ∧
      eval? "/a~1b/1/~01" document.root = some (.int 4) := by
  intro document
  have hfound : eval? "/a~1b/1/~01" document.root = some (.int 4) := by rfl
  have hpointer : "/a~1b/1/~01" = "" ∨ isPointer "/a~1b/1/~01" := .inr (by decide)
  refine ⟨?_, hfound⟩
  rw [(value_follow?_eq_eval? document "/a~1b/1/~01" hpointer).1, hfound]
  intro hstrays
  rw [eval?_eq_follow? hpointer, hstrays.follow?] at hfound
  cases hfound

/-- Only the shortest form of an index names an item, but the walk takes others too, and comes
to a node that stands for nothing. -/
theorem exists_walk_without_value :
    let document := Document.ofValue (.object [("pets", .array [.string "cat"])])
    let root := rootOf document
    (root.follow? (Json.Pointer.tokens "/pets/0")).map value = some (.string "cat") ∧
      ∀ pointer ∈ ["/pets/00", "/pets/+0"], isPointer pointer ∧
        (root.follow? (Json.Pointer.tokens pointer)).map value = some .null ∧
        eval? pointer document.root = none := by
  intro document root
  have hwalk : ∀ pointer token, tokens pointer = ["pets", token] → strictIndex? token = none →
      looseIndex? token = some 0 → (root.follow? (tokens pointer)).map value = some .null := by
    intro pointer token htokens hstrict hloose
    refine value_follow?_of_strays ⟨["pets"], token, _, htokens, rfl, hstrict, ?_⟩
    exact ⟨[.string "cat"], 0, rfl, hloose, by decide⟩
  constructor
  · have hfound : Json.Pointer.follow? root.value (tokens "/pets/0") = some (.string "cat") := rfl
    rw [value_follow?, hfound]
    intro hstrays
    rw [hstrays.follow?] at hfound
    cases hfound
  · intro pointer hmem
    simp only [List.mem_cons, List.not_mem_nil, or_false] at hmem
    rcases hmem with rfl | rfl
    · exact ⟨by decide, hwalk _ "00" (by decide) (by decide) (by decide), rfl⟩
    · exact ⟨by decide, hwalk _ "+0" (by decide) (by decide) (by decide), rfl⟩

end Node

end SpecForm
