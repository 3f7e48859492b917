import SpecForm.Proofs.TypeScript.Parsing
import SpecForm.Proofs.TypeScript.Written

/-!
# Reading what was printed

Every printed type reads back as itself, whatever names, keys and texts are in it.  Only an
intersection directly inside an intersection is lost, since it is printed without parentheses.
-/

namespace SpecForm.TypeScript

/-! ## Types that are printed as themselves -/

namespace TypeExpr

def intersectionMembers : TypeExpr → List TypeExpr
  | .intersection members => members
  | type => [type]

mutual

/-- A type with the members of an intersection that is directly inside an intersection put into
the outer one. -/
def flat : TypeExpr → TypeExpr
  | .array item => .array item.flat
  | .union members => .union (flatAll members)
  | .intersection members => .intersection (flatOperands members)
  | .object members => .object (flatMembers members)
  | .record key value => .record key.flat value.flat
  | .primitive name => .primitive name
  | .literal value => .literal value
  | .named name => .named name

def flatAll : List TypeExpr → List TypeExpr
  | [] => []
  | type :: rest => type.flat :: flatAll rest

def flatOperands : List TypeExpr → List TypeExpr
  | [] => []
  | type :: rest => type.flat.intersectionMembers ++ flatOperands rest

def flatMembers : List (String × Bool × TypeExpr) → List (String × Bool × TypeExpr)
  | [] => []
  | (name, optional, type) :: rest => (name, optional, type.flat) :: flatMembers rest

end

theorem flatAll_eq (types : List TypeExpr) : flatAll types = types.map flat := by
  induction types with
  | nil => rfl
  | cons type rest ih => rw [flatAll, ih, List.map_cons]

def flatMember (member : String × Bool × TypeExpr) : String × Bool × TypeExpr :=
  (member.1, member.2.1, member.2.2.flat)

theorem flatMembers_eq (members : List (String × Bool × TypeExpr)) :
    flatMembers members = members.map flatMember := by
  induction members with
  | nil => rfl
  | cons member rest ih => rw [flatMembers, ih, List.map_cons, flatMember]

theorem unionTexts_eq (types : List TypeExpr) : unionTexts types = types.map text := by
  induction types with
  | nil => rfl
  | cons type rest ih => rw [unionTexts, ih, List.map_cons]

def memberText (member : String × Bool × TypeExpr) : String :=
  Naming.propertyKey member.1 ++ (if member.2.1 then "?" else "") ++ ": " ++ member.2.2.text

theorem memberTexts_eq (members : List (String × Bool × TypeExpr)) :
    memberTexts members = members.map memberText := by
  induction members with
  | nil => rfl
  | cons member rest ih => rw [memberTexts, ih, List.map_cons, memberText]

theorem gathered_of_two_le {join : List TypeExpr → TypeExpr} {types : List TypeExpr}
    (h : 2 ≤ types.length) : gathered join types = join types := by
  match types with
  | [] | [_] => simp at h
  | _ :: _ :: _ => rfl

/-- Types whose text leaves no doubt about them, apart from intersections in intersections. -/
inductive Printable : TypeExpr → Prop where
  | primitive (name : Primitive) : Printable (.primitive name)
  | array {item : TypeExpr} : Printable item → Printable (.array item)
  | union {members : List TypeExpr} : 2 ≤ members.length → (∀ type ∈ members, ¬type.isUnion) →
      (∀ type ∈ members, Printable type) → Printable (.union members)
  | intersection {members : List TypeExpr} : 2 ≤ members.length →
      (∀ type ∈ members, Printable type) → Printable (.intersection members)
  | object {members : List (String × Bool × TypeExpr)} :
      (∀ member ∈ members, Printable member.2.2) → Printable (.object members)
  | record {key value : TypeExpr} : Printable key → Printable value → Printable (.record key value)
  | string (value : String) : Printable (.literal (.string value))
  | int (value : Int) : Printable (.literal (.int value))
  | bool (value : Bool) : Printable (.literal (.bool value))
  | named {name : String} : isTypeName name → name ∉ reservedTypeNames → Printable (.named name)

/-- How the text of a type reads in each place where it is put: at an operand's place and among
operands it is in parentheses, if the type needs them there. -/
structure Legible (type : TypeExpr) : Prop where
  whole : Written type.text (.type type.flat)
  part : Written (parenthesized type.isUnion type.text) (.part type.flat)
  operand : Written (parenthesized type.isCompound type.text) (.operand type.flat)
  operands : ∃ chunks : List (String × TypeExpr), chunks ≠ [] ∧
    " & ".intercalate (chunks.map Prod.fst) = parenthesized type.isUnion type.text ∧
    chunks.map Prod.snd = type.flat.intersectionMembers ∧
    ∀ chunk ∈ chunks, Written chunk.1 (.operand chunk.2)

namespace Legible

theorem of_operand {type : TypeExpr} (hplain : type.isCompound = false)
    (hflat : type.flat.intersectionMembers = [type.flat])
    (h : Written type.text (.operand type.flat)) : type.Legible := by
  have hunion : type.isUnion = false := by cases type <;> simp_all [isCompound, isUnion]
  refine ⟨h.as_part.as_type, ?_, ?_, [(type.text, type.flat)], by simp, ?_, hflat.symm,
    by simpa using h⟩
  · rw [hunion]
    exact h.as_part
  · rw [hplain]
    exact h
  · rw [hunion, List.map_singleton, String.intercalate_singleton]
    rfl

theorem union {members : List TypeExpr} (hlength : 2 ≤ members.length)
    (hplain : ∀ type ∈ members, ¬type.isUnion) (h : ∀ type ∈ members, type.Legible) :
    (TypeExpr.union members).Legible := by
  have hwhole : Written (TypeExpr.union members).text (.type (TypeExpr.union members).flat) := by
    have hparts := Written.type_of_parts (members.map fun type => (type.text, type.flat))
      (by rintro hnil; simp_all) (List.forall_mem_map.mpr fun type hmem => ?_)
    · rw [List.map_map, List.map_map, gathered_of_two_le (by simpa using hlength)] at hparts
      rw [text, flat, unionTexts_eq, flatAll_eq]
      exact hparts
    · have hpart := (h type hmem).part
      rwa [Bool.eq_false_iff.mpr (hplain type hmem)] at hpart
  have hgroup := hwhole.group
  refine ⟨hwhole, hgroup.as_part, hgroup, [(_, (TypeExpr.union members).flat)], by simp, ?_, rfl,
    by simpa using hgroup⟩
  rw [List.map_singleton, String.intercalate_singleton]
  rfl

theorem exists_operands {members : List TypeExpr} (h : ∀ type ∈ members, type.Legible) :
    ∃ chunks : List (String × TypeExpr), members.length ≤ chunks.length ∧
      " & ".intercalate (chunks.map Prod.fst) = " & ".intercalate (intersectionTexts members) ∧
      chunks.map Prod.snd = flatOperands members ∧
      ∀ chunk ∈ chunks, Written chunk.1 (.operand chunk.2) := by
  induction members with
  | nil => exact ⟨[], Nat.le_refl _, rfl, rfl, by simp⟩
  | cons first rest ih =>
      obtain ⟨hfirst, hrest⟩ := List.forall_mem_cons.mp h
      obtain ⟨front, hfront, hfronttext, hfrontvalues, hfrontreads⟩ := hfirst.operands
      obtain ⟨back, hback, hbacktext, hbackvalues, hbackreads⟩ := ih hrest
      have hpositive : 0 < front.length := List.length_pos_iff.mpr hfront
      refine ⟨front ++ back, ?_, ?_, ?_, ?_⟩
      · rw [List.length_cons, List.length_append]
        omega
      · cases rest with
        | nil =>
            obtain rfl : back = [] := by simpa [flatOperands] using hbackvalues
            rw [List.append_nil, hfronttext]
            simp [intersectionTexts]
        | cons second rest =>
            rw [List.map_append, String.intercalate_append_of_ne_nil (by simpa using hfront)
              (by rintro hnil; simp_all), hfronttext, hbacktext]
            simp only [intersectionTexts, String.intercalate_cons_cons]
      · rw [List.map_append, hfrontvalues, hbackvalues, flatOperands]
      · exact fun chunk hchunk =>
          (List.mem_append.mp hchunk).elim (hfrontreads chunk) (hbackreads chunk)

theorem intersection {members : List TypeExpr} (hlength : 2 ≤ members.length)
    (h : ∀ type ∈ members, type.Legible) : (TypeExpr.intersection members).Legible := by
  obtain ⟨chunks, hchunks, htext, hvalues, hreads⟩ := exists_operands h
  have hne : chunks ≠ [] := by
    rintro rfl
    rw [List.length_nil] at hchunks
    omega
  have hpart : Written (TypeExpr.intersection members).text
      (.part (TypeExpr.intersection members).flat) := by
    have hoperands := Written.part_of_operands chunks hne hreads
    rw [gathered_of_two_le (by rw [List.length_map]; omega), htext, hvalues] at hoperands
    rw [text, flat]
    exact hoperands
  refine ⟨hpart.as_type, hpart, hpart.as_type.group, chunks, hne, ?_, ?_, hreads⟩
  · rw [text]
    exact htext
  · rw [hvalues, flat, intersectionMembers]

end Legible

theorem Printable.legible {type : TypeExpr} (h : type.Printable) : type.Legible := by
  induction h with
  | primitive name => exact .of_operand rfl rfl (.primitive name)
  | array _ ih => exact .of_operand rfl rfl (.array ih.operand)
  | union hlength hplain _ ih => exact .union hlength hplain ih
  | intersection hlength _ ih => exact .intersection hlength ih
  | @object members _ ih =>
      refine .of_operand rfl rfl ?_
      rw [flat, flatMembers_eq]
      cases members with
      | nil => exact .emptyObject
      | cons first rest =>
          have hobject := Written.object
            ((first :: rest).map fun member => (memberText member, flatMember member))
            (List.forall_mem_map.mpr fun member hmember =>
              .member member.1 member.2.1 (ih member hmember).whole)
          rw [List.map_map, List.map_map] at hobject
          rw [text, memberTexts_eq]
          · exact hobject
          · simp
  | record _ _ ihkey ihvalue => exact .of_operand rfl rfl (.record ihkey.whole ihvalue.whole)
  | string value => exact .of_operand rfl rfl (.string value)
  | int value => exact .of_operand rfl rfl (.int value)
  | bool value => exact .of_operand rfl rfl (.bool value)
  | named hname hfree => exact .of_operand rfl rfl (.named hname hfree)

/-! ## Flat types -/

def isIntersection : TypeExpr → Bool
  | .intersection _ => true
  | _ => false

/-- No intersection is directly inside an intersection. -/
inductive IsFlat : TypeExpr → Prop where
  | primitive (name : Primitive) : IsFlat (.primitive name)
  | array {item : TypeExpr} : IsFlat item → IsFlat (.array item)
  | union {members : List TypeExpr} : (∀ type ∈ members, IsFlat type) → IsFlat (.union members)
  | intersection {members : List TypeExpr} : (∀ type ∈ members, ¬type.isIntersection) →
      (∀ type ∈ members, IsFlat type) → IsFlat (.intersection members)
  | object {members : List (String × Bool × TypeExpr)} :
      (∀ member ∈ members, IsFlat member.2.2) → IsFlat (.object members)
  | record {key value : TypeExpr} : IsFlat key → IsFlat value → IsFlat (.record key value)
  | literal (value : Literal) : IsFlat (.literal value)
  | named (name : String) : IsFlat (.named name)

theorem intersectionMembers_of_not_isIntersection {type : TypeExpr} (h : ¬type.isIntersection) :
    type.intersectionMembers = [type] := by
  cases type <;> simp_all [isIntersection, intersectionMembers]

theorem flatOperands_eq (types : List TypeExpr) :
    flatOperands types = types.flatMap fun type => type.flat.intersectionMembers := by
  induction types with
  | nil => rfl
  | cons type rest ih => rw [flatOperands, ih, List.flatMap_cons]

theorem IsFlat.flat_eq {type : TypeExpr} (h : type.IsFlat) : type.flat = type := by
  induction h with
  | primitive | literal | named => rfl
  | array _ ih => rw [flat, ih]
  | @union members _ ih =>
      rw [flat, flatAll_eq, List.map_congr_left ih, List.map_id']
  | @intersection members hplain _ ih =>
      have hmembers : ∀ type ∈ members, type.flat.intersectionMembers = [type] := by
        intro type hmem
        rw [ih type hmem, intersectionMembers_of_not_isIntersection (hplain type hmem)]
      rw [flat, flatOperands_eq, List.flatMap_def, List.map_congr_left hmembers,
        ← List.flatMap_def, List.flatMap_singleton']
  | @object members _ ih =>
      have hmembers : ∀ member ∈ members, flatMember member = member := by
        intro member hmem
        rw [flatMember, ih member hmem]
      rw [flat, flatMembers_eq, List.map_congr_left hmembers, List.map_id']
  | record _ _ ihkey ihvalue => rw [flat, ihkey, ihvalue]

end TypeExpr

/--
The parser decides the grammar, in which `|` binds least, then `&`, and `[]` most: what it makes
of a text is the one type that the text stands for.  Let the unions in a type have two members at
least and none that is a union, its intersections two members at least, its literals be texts,
whole numbers or truth values, and its names identifiers without a meaning of their own.  Then
its text is parsed, whatever keys and texts are in it, and gives the type again, only with an
intersection that is directly inside an intersection put into that; where there is none, it gives
the type itself.
-/
theorem parse_text :
    (∀ text type, parse text = some type ↔
      ∃ tokens, lex text = some tokens ∧ Reads tokens (.type type)) ∧
    ∀ type : TypeExpr, type.Printable →
      parse type.text = some type.flat ∧ (type.IsFlat → type.flat = type) := by
  refine ⟨fun text type => parse_eq_some_iff, fun type h => ⟨?_, TypeExpr.IsFlat.flat_eq⟩⟩
  obtain ⟨tokens, hlexes, hreads⟩ := h.legible.whole
  exact parse_eq_some_iff.mpr ⟨tokens, hlexes.lex_eq, hreads⟩

theorem parse_text_nested :
    let text := "(Base & Left & null | \x7b \"x-tag\"?: \"a|\\\"b\" \x7d)[]"
    let member := TypeExpr.object [("x-tag", true, .literal (.string "a|\"b"))]
    let type := TypeExpr.array (.union
      [.intersection [.named "Base", .intersection [.named "Left", .null]], member])
    type.Printable ∧ type.text = text ∧
      parse text = some (.array (.union
        [.intersection [.named "Base", .named "Left", .null], member])) := by
  intro text member type
  have hnamed (name : String) (h : isTypeName name && name ∉ reservedTypeNames) :
      (TypeExpr.named name).Printable := by
    rw [Bool.and_eq_true, decide_eq_true_eq] at h
    exact .named h.1 h.2
  have hinner : (TypeExpr.intersection [.named "Left", .null]).Printable :=
    .intersection (by decide) (by simpa using ⟨hnamed "Left" (by decide), .primitive .null⟩)
  have houter : (TypeExpr.intersection
      [.named "Base", .intersection [.named "Left", .null]]).Printable :=
    .intersection (by decide) (by simpa using ⟨hnamed "Base" (by decide), hinner⟩)
  have hmember : member.Printable := .object (by simpa using .string _)
  have hprintable : type.Printable :=
    .array (.union (by decide) (by decide) (by simpa using ⟨houter, hmember⟩))
  have htext : type.text = text := by decide +kernel
  refine ⟨hprintable, htext, ?_⟩
  rw [← htext]
  exact (parse_text.2 type hprintable).1

end SpecForm.TypeScript
