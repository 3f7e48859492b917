import SpecForm.Decimal.Round

/-!
# JSON values

The members of an object keep the order in which they were written.  Integers
between `-2^63` and `2^64 - 1` are kept apart from the other numbers, which are
doubles.  Where a name occurs twice in a member list the first entry counts;
`setMember` and everything that reads documents keeps names distinct.
-/

namespace SpecForm

inductive Json where
  | null
  | bool (value : Bool)
  | int (value : Int)
  | float (value : Float)
  | string (value : String)
  | array (items : List Json)
  | object (members : List (String × Json))
  deriving Inhabited

namespace Json

def holdsInt (n : Int) : Bool := -0x8000000000000000 ≤ n && n < 0x10000000000000000

def asString? : Json → Option String
  | .string value => some value
  | _ => none

def asBool? : Json → Option Bool
  | .bool value => some value
  | _ => none

def asArray? : Json → Option (List Json)
  | .array items => some items
  | _ => none

def asObject? : Json → Option (List (String × Json))
  | .object members => some members
  | _ => none

def asFloat? : Json → Option Float
  | .int value => some (Decimal.ofInt value)
  | .float value => some value
  | _ => none

def isObject (value : Json) : Bool := value.asObject?.isSome

def member? (value : Json) (name : String) : Option Json :=
  match value with
  | .object members => members.lookup name
  | _ => none

def stringMember? (value : Json) (name : String) : Option String :=
  (value.member? name).bind asString?

def names (members : List (String × Json)) : List String :=
  (members.map Prod.fst).eraseDups

def setMember (name : String) (value : Json) :
    List (String × Json) → List (String × Json)
  | [] => [(name, value)]
  | (other, old) :: rest =>
      if other = name then (name, value) :: rest
      else (other, old) :: setMember name value rest

/-! ## Size -/

mutual

def size : Json → Nat
  | .array items => sizeItems items + 1
  | .object members => sizeMembers members + 1
  | _ => 1

def sizeItems : List Json → Nat
  | [] => 0
  | item :: rest => item.size + sizeItems rest

def sizeMembers : List (String × Json) → Nat
  | [] => 0
  | (_, value) :: rest => value.size + sizeMembers rest

end

/-! ## Laws -/

theorem size_pos (value : Json) : 0 < value.size := by
  cases value <;> simp [size]

private theorem lookup_entry (other key : String) (value : Json)
    (rest : List (String × Json)) :
    List.lookup other ((key, value) :: rest) =
      if other = key then some value else rest.lookup other := by
  rw [List.lookup_cons]
  by_cases h : other = key
  · simp [h]
  · simp [h, beq_eq_false_iff_ne.mpr h]

theorem lookup_setMember (name other : String) (value : Json)
    (members : List (String × Json)) :
    (setMember name value members).lookup other =
      if other = name then some value else members.lookup other := by
  induction members with
  | nil => simp only [setMember, lookup_entry]
  | cons entry rest ih =>
      obtain ⟨key, old⟩ := entry
      by_cases hk : key = name
      · subst hk
        simp only [setMember, if_true, lookup_entry]
        by_cases ho : other = key <;> simp [ho]
      · simp only [setMember, if_neg hk, lookup_entry, ih]
        by_cases ho : other = key
        · simp [ho, hk]
        · simp [ho]

theorem mem_names {name : String} {members : List (String × Json)} :
    name ∈ names members ↔ ∃ value, members.lookup name = some value := by
  rw [names, List.mem_eraseDups]
  induction members with
  | nil => simp
  | cons entry rest ih =>
      obtain ⟨key, value⟩ := entry
      rw [List.map_cons, List.mem_cons, ih, lookup_entry]
      by_cases h : name = key <;> simp [h]

theorem size_lt_of_lookup {name : String} {members : List (String × Json)} {value : Json}
    (h : members.lookup name = some value) : value.size < (object members).size := by
  suffices value.size ≤ sizeMembers members by simp only [size]; omega
  induction members with
  | nil => simp at h
  | cons entry rest ih =>
      obtain ⟨key, first⟩ := entry
      rw [lookup_entry] at h
      rw [sizeMembers]
      by_cases hk : name = key
      · rw [if_pos hk, Option.some.injEq] at h
        subst h
        omega
      · rw [if_neg hk] at h
        have := ih h
        omega

theorem size_lt_of_getElem? {items : List Json} {i : Nat} {value : Json}
    (h : items[i]? = some value) : value.size < (array items).size := by
  suffices value.size ≤ sizeItems items by simp only [size]; omega
  induction items generalizing i with
  | nil => simp at h
  | cons first rest ih =>
      rw [sizeItems]
      cases i with
      | zero =>
          rw [List.getElem?_cons_zero, Option.some.injEq] at h
          subst h
          omega
      | succ i =>
          have := ih (by simpa using h)
          omega

end Json

end SpecForm
