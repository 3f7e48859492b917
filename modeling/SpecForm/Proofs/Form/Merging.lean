import Mathlib.Logic.Function.Iterate
import SpecForm.Proofs.Form.Grounds

/-!
# When merging ends

A schema that has a key is visited once, and there are only so many places with
parts; so merging goes on for ever only over schemas that have no keys, each a part
of the one before it.
-/

namespace SpecForm.Form

/-- A schema is made of another one. -/
def Inherits (resolver : Resolver) (schema part : Node) : Prop :=
  ∃ member ∈ Merge.parts schema, resolver.resolve member = some part

namespace Merge

variable {resolver : Resolver} {merge : Merge} {next schema : Node} {rest : List Node} {key : Key}
  {places : List Node} {seen : List Key} {found kept : Node → Prop}

/-! ## Steps -/

def Ends (resolver : Resolver) (merge : Merge) : Prop :=
  ∃ n, ((step resolver)^[n] merge).isDone

theorem isDone_iff : merge.isDone ↔ merge.pending = [] := List.isEmpty_iff

theorem step_of_isDone (h : merge.isDone) : merge.step resolver = merge := by
  rw [step, isDone_iff.mp h]

theorem iterate_of_isDone (h : merge.isDone) (n : Nat) : (step resolver)^[n] merge = merge :=
  Function.iterate_fixed (step_of_isDone h) n

theorem exhaust_eq_iterate (merge : Merge) (n : Nat) :
    merge.exhaust resolver n = (step resolver)^[2 ^ n] merge := by
  induction n generalizing merge with
  | zero => rfl
  | succ n ih =>
      rw [exhaust, Nat.pow_succ, Nat.mul_two, Function.iterate_add_apply, ← ih merge]
      split
      · rename_i hdone
        rw [iterate_of_isDone hdone]
      · exact ih _

theorem step_of_unresolved (hpending : merge.pending = next :: rest)
    (hresolve : resolver.resolve next = none) :
    merge.step resolver = { merge with pending := rest } := by
  simp only [step, hpending, hresolve]

theorem step_of_keyless (hpending : merge.pending = next :: rest)
    (hresolve : resolver.resolve next = some schema) (hkey : schema.key? = none) :
    merge.step resolver = visit { merge with pending := rest } schema := by
  simp only [step, hpending, hresolve, hkey]

theorem step_of_seen (hpending : merge.pending = next :: rest)
    (hresolve : resolver.resolve next = some schema) (hkey : schema.key? = some key)
    (hseen : key ∈ merge.seen) : merge.step resolver = { merge with pending := rest } := by
  simp only [step, hpending, hresolve, hkey, List.contains_iff_mem.mpr hseen, if_true]

theorem step_of_fresh (hpending : merge.pending = next :: rest)
    (hresolve : resolver.resolve next = some schema) (hkey : schema.key? = some key)
    (hfresh : key ∉ merge.seen) :
    merge.step resolver =
      visit { merge with pending := rest, seen := key :: merge.seen } schema := by
  have hnot : ¬merge.seen.contains key := fun h => hfresh (List.contains_iff_mem.mp h)
  simp only [step, hpending, hresolve, hkey, hnot, if_false, Bool.false_eq_true]

/-! ## Room -/

/-- How many parts the places have of which no schema has been seen. -/
def room (places : List Node) (seen : List Key) : Nat :=
  (places.map fun place => if place.key?.any seen.contains then 0 else (parts place).length).sum

theorem room_le (places : List Node) (seen : List Key) :
    room places seen ≤ (places.map fun place => (parts place).length).sum := by
  refine List.sum_le_sum fun place _ => ?_
  split
  · exact Nat.zero_le _
  · exact Nat.le_refl _

theorem room_cons_le (places : List Node) (key : Key) (seen : List Key) :
    room places (key :: seen) ≤ room places seen := by
  refine List.sum_le_sum fun place _ => ?_
  cases place.key? with
  | none => exact Nat.le_refl _
  | some other =>
      simp only [Option.any_some, List.contains_cons, Bool.or_eq_true]
      split <;> split <;> simp_all

theorem room_cons_add_le {place : Node} (hplace : place ∈ places) (hkey : place.key? = some key)
    (hfresh : key ∉ seen) :
    room places (key :: seen) + (parts place).length ≤ room places seen := by
  obtain ⟨front, back, rfl⟩ := List.append_of_mem hplace
  have hfront := room_cons_le front key seen
  have hback := room_cons_le back key seen
  simp only [room, List.map_append, List.map_cons, List.sum_append, List.sum_cons, hkey,
    Option.any_some, List.contains_cons, beq_self_eq_true, Bool.true_or, if_true] at hfront hback ⊢
  rw [if_neg (by simpa using hfresh)]
  omega

theorem room_of_grounded (hschema : Grounded places schema) (hkey : schema.key? = some key)
    (hfresh : key ∉ seen) :
    room places (key :: seen) + (parts schema).length ≤ room places seen := by
  by_cases hnone : parts schema = []
  · rw [hnone]
    exact room_cons_le places key seen
  · obtain ⟨part, hpart⟩ := List.exists_mem_of_ne_nil _ hnone
    obtain ⟨place, hplace, hsame, hmember⟩ := hschema (isObject_of_mem_parts hpart)
    rw [← length_parts_congr (hmember "allOf" (by decide))]
    exact room_cons_add_le hplace (hsame.trans hkey) hfresh

/-! ## Ways of a step -/

theorem step_cases (resolver : Resolver) (hpending : merge.pending = next :: rest) :
    ((merge.step resolver).pending = rest ∧ (merge.step resolver).seen = merge.seen) ∨
    (∃ schema, resolver.resolve next = some schema ∧ schema.key? = none ∧
      (merge.step resolver).pending = parts schema ++ rest ∧
      (merge.step resolver).seen = merge.seen) ∨
    ∃ schema key, resolver.resolve next = some schema ∧ schema.key? = some key ∧
      key ∉ merge.seen ∧ (merge.step resolver).pending = parts schema ++ rest ∧
      (merge.step resolver).seen = key :: merge.seen := by
  cases hresolve : resolver.resolve next with
  | none =>
      rw [step_of_unresolved hpending hresolve]
      exact .inl ⟨rfl, rfl⟩
  | some schema =>
      cases hkey : schema.key? with
      | none =>
          rw [step_of_keyless hpending hresolve hkey]
          exact .inr (.inl ⟨schema, rfl, hkey, rfl, rfl⟩)
      | some key =>
          by_cases hseen : key ∈ merge.seen
          · rw [step_of_seen hpending hresolve hkey hseen]
            exact .inl ⟨rfl, rfl⟩
          · rw [step_of_fresh hpending hresolve hkey hseen]
            exact .inr (.inr ⟨schema, key, rfl, hkey, hseen, rfl, rfl⟩)

theorem mem_pending_step (resolver : Resolver) (hpending : merge.pending = next :: rest)
    {part : Node} (hpart : part ∈ rest) : part ∈ (merge.step resolver).pending := by
  rcases step_cases resolver hpending with ⟨hrest, -⟩ | ⟨schema, -, -, hrest, -⟩ |
    ⟨schema, key, -, -, -, hrest, -⟩
  · rwa [hrest]
  · rw [hrest]
    exact List.mem_append_right _ hpart
  · rw [hrest]
    exact List.mem_append_right _ hpart

theorem ends_of_step (h : Ends resolver (merge.step resolver)) : Ends resolver merge := by
  obtain ⟨n, hn⟩ := h
  exact ⟨n + 1, hn⟩

theorem isDone_iterate (hpasses : Passes resolver found kept)
    (hgrounded : ∀ {schema}, found schema → Grounded places schema)
    (hkeyed : ∀ {schema}, found schema → schema.key? ≠ none) {n : Nat}
    (h : merge.Sound found kept) (hn : room places merge.seen + merge.pending.length ≤ n) :
    ((step resolver)^[n] merge).isDone := by
  induction n generalizing merge with
  | zero =>
      rw [Function.iterate_zero, id, isDone_iff]
      exact List.length_eq_zero_iff.mp (by omega)
  | succ n ih =>
      cases hpending : merge.pending with
      | nil =>
          have hdone := isDone_iff.mpr hpending
          rwa [iterate_of_isDone hdone]
      | cons next rest =>
          have hnext : found next := h.pending next (hpending ▸ List.mem_cons_self)
          rw [hpending, List.length_cons] at hn
          rw [Function.iterate_succ_apply]
          refine ih (h.step hpasses) ?_
          rcases step_cases resolver hpending with ⟨hrest, hseen⟩ |
            ⟨schema, hresolve, hkey, -⟩ | ⟨schema, key, hresolve, hkey, hfresh, hrest, hseen⟩
          · rw [hrest, hseen]
            omega
          · exact absurd hkey (hkeyed (hpasses.resolve hnext hresolve))
          · have hroom := room_of_grounded (hgrounded (hpasses.resolve hnext hresolve)) hkey hfresh
            rw [hrest, hseen, List.length_append]
            omega

end Merge

/-! ## Schemas without keys -/

/-- One schema without a key is made of another. -/
def Unkeyed (resolver : Resolver) (part schema : Node) : Prop :=
  schema.key? = none ∧ part.key? = none ∧ Inherits resolver schema part

def Comes (resolver : Resolver) (schema own : Node) : Prop :=
  ∃ n, ∃ part ∈ ((Merge.step resolver)^[n] (Merge.start schema)).pending,
    resolver.resolve part = some own

namespace Merge

/-- Whatever schema without a key is come to, it is made of only so many. -/
def WellMade (resolver : Resolver) (merge : Merge) : Prop :=
  ∀ n, ∀ part ∈ ((step resolver)^[n] merge).pending, ∀ own, resolver.resolve part = some own →
    own.key? = none → Acc (Unkeyed resolver) own

theorem acc_of_isDone_iterate {n : Nat} (hdone : ((step resolver)^[n] merge).isDone)
    {part own : Node} (hpart : part ∈ merge.pending) (hresolve : resolver.resolve part = some own)
    (hkey : own.key? = none) : Acc (Unkeyed resolver) own := by
  induction n generalizing merge part own with
  | zero =>
      rw [Function.iterate_zero, id, isDone_iff] at hdone
      simp [hdone] at hpart
  | succ n ih =>
      rw [Function.iterate_succ_apply] at hdone
      cases hpending : merge.pending with
      | nil => simp [hpending] at hpart
      | cons next rest =>
          rw [hpending, List.mem_cons] at hpart
          rcases hpart with rfl | hrest
          · have hstep := step_of_keyless hpending hresolve hkey
            refine .intro own fun below ⟨_, hbelow, member, hmember, hown⟩ => ih hdone ?_ hown hbelow
            rw [hstep]
            exact List.mem_append_left _ hmember
          · exact ih hdone (mem_pending_step resolver hpending hrest) hresolve hkey

theorem Ends.wellMade (h : Ends resolver merge) : WellMade resolver merge := by
  obtain ⟨m, hm⟩ := h
  intro n part hpart own hresolve hkey
  refine acc_of_isDone_iterate (n := m) ?_ hpart hresolve hkey
  rwa [← Function.iterate_add_apply, Nat.add_comm, Function.iterate_add_apply,
    iterate_of_isDone hm]

structure Tame (resolver : Resolver) (places : List Node) (bound : Nat) (merge : Merge) : Prop where
  sound : merge.Sound (Grounded places) (Standing places)
  wellMade : WellMade resolver merge
  room_le : room places merge.seen ≤ bound

variable {bound : Nat}

theorem Tame.step (hgrounds : Grounds resolver places) (h : Tame resolver places bound merge)
    (hroom : room places (merge.step resolver).seen ≤ bound) :
    Tame resolver places bound (merge.step resolver) :=
  ⟨h.sound.step hgrounds.passes, fun n => h.wellMade (n + 1), hroom⟩

theorem ends_of_cons (hgrounds : Grounds resolver places)
    (hless : ∀ bound' < bound, ∀ merge, Tame resolver places bound' merge → Ends resolver merge)
    (hrest : ∀ merge : Merge, merge.pending = rest → Tame resolver places bound merge →
      Ends resolver merge)
    (hparts : ∀ schema, resolver.resolve next = some schema → schema.key? = none →
      ∀ merge : Merge, merge.pending = parts schema ++ rest → Tame resolver places bound merge →
      Ends resolver merge)
    (hpending : merge.pending = next :: rest) (h : Tame resolver places bound merge) :
    Ends resolver merge := by
  apply ends_of_step
  rcases step_cases resolver hpending with ⟨hstep, hseen⟩ |
    ⟨schema, hresolve, hkey, hstep, hseen⟩ | ⟨schema, key, hresolve, hkey, hfresh, hstep, hseen⟩
  · exact hrest _ hstep (h.step hgrounds (hseen ▸ h.room_le))
  · exact hparts schema hresolve hkey _ hstep (h.step hgrounds (hseen ▸ h.room_le))
  · have hnext := h.sound.pending next (hpending ▸ List.mem_cons_self)
    have hroom := room_of_grounded (hgrounds.passes.resolve hnext hresolve) hkey hfresh
    rw [← hseen] at hroom
    have hbound := h.room_le
    by_cases hnone : parts schema = []
    · rw [hnone, List.nil_append] at hstep
      exact hrest _ hstep (h.step hgrounds (by omega))
    · have hpos := List.length_pos_iff.mpr hnone
      have htame := h.step hgrounds (by omega)
      exact hless _ (by omega) _ ⟨htame.sound, htame.wellMade, le_rfl⟩

theorem ends_of_acc (hgrounds : Grounds resolver places)
    (hless : ∀ bound' < bound, ∀ merge, Tame resolver places bound' merge → Ends resolver merge)
    (hacc : Acc (Unkeyed resolver) schema) (hkey : schema.key? = none) {members : List Node}
    (hmembers : members ⊆ parts schema)
    (hrest : ∀ merge : Merge, merge.pending = rest → Tame resolver places bound merge →
      Ends resolver merge)
    (hpending : merge.pending = members ++ rest) (h : Tame resolver places bound merge) :
    Ends resolver merge := by
  induction hacc generalizing members rest merge with
  | intro schema _ ih =>
      induction members generalizing merge with
      | nil => exact hrest merge hpending h
      | cons member others ihOthers =>
          obtain ⟨hmember, hothers⟩ := List.cons_subset.mp hmembers
          have hafter : ∀ merge : Merge, merge.pending = others ++ rest →
              Tame resolver places bound merge → Ends resolver merge :=
            fun _ hpending h => ihOthers hothers hpending h
          refine ends_of_cons hgrounds hless hafter (fun own hresolve hown _ hparts htame => ?_)
            hpending h
          exact ih own ⟨hkey, hown, member, hmember, hresolve⟩ hown (List.Subset.refl _) hafter
            hparts htame

theorem ends_of_tame (hgrounds : Grounds resolver places) (h : Tame resolver places bound merge) :
    Ends resolver merge := by
  induction bound using Nat.strong_induction_on generalizing merge with
  | _ bound ihBound =>
      have hless : ∀ bound' < bound, ∀ merge, Tame resolver places bound' merge →
          Ends resolver merge := fun bound' hlt _ htame => ihBound bound' hlt htame
      induction hpending : merge.pending generalizing merge with
      | nil => exact ⟨0, isDone_iff.mpr hpending⟩
      | cons next rest ih =>
          refine ends_of_cons hgrounds hless (fun _ hrest htame => ih htame hrest)
            (fun schema hresolve hkey _ hparts htame => ?_) hpending h
          have hacc := h.wellMade 0 next (hpending ▸ List.mem_cons_self) schema hresolve hkey
          exact ends_of_acc hgrounds hless hacc hkey (List.Subset.refl _)
            (fun _ hrest htame => ih htame hrest) hparts htame

theorem ends_iff_wellMade (hgrounds : Grounds resolver places)
    (h : merge.Sound (Grounded places) (Standing places)) :
    Ends resolver merge ↔ WellMade resolver merge :=
  ⟨Ends.wellMade, fun hmade => ends_of_tame hgrounds ⟨h, hmade, le_rfl⟩⟩

end Merge

/-! ## Stores in which everything has a key -/

theorem Merge.size_lt_of_mem_parts {member schema : Node} (h : member ∈ parts schema) :
    member.value.size < schema.value.size := by
  obtain ⟨holder, hmember, hitem⟩ := exists_holder_of_mem_parts h
  have hholder := Node.size_child_lt (Node.mem_children_of_member? hmember)
  have hsize := Node.size_child_lt (holder.items_sublist_children.subset hitem)
  omega

variable {resolver : Resolver} {node schema part : Node}

theorem key?_step_ne_none (hnode : node.key? ≠ none) (token : String) :
    (node.step token).key? ≠ none := by
  rwa [Node.key?_step, ne_eq, Option.map_eq_none_iff]

theorem key?_of_follow? {path : List String} (hnode : node.key? ≠ none)
    (h : node.follow? path = some part) : part.key? ≠ none := by
  induction path generalizing node with
  | nil => rwa [← Option.some.inj h]
  | cons token rest ih =>
      obtain ⟨next, hnext, hrest⟩ := Option.bind_eq_some_iff.mp h
      refine ih ?_ hrest
      rw [Node.eq_step_of_child? hnext]
      exact key?_step_ne_none hnode token

section

variable (hmapped : ∀ uri node, resolver.store.get? uri = some node → node.key? ≠ none)

include hmapped

theorem key?_of_hop {text base : String} {kind : Node.RefKind} {scope : List String}
    (h : resolver.hop text kind base scope = .found node) : node.key? ≠ none := by
  obtain ⟨uri, mapped, path, hget, hfollow⟩ := Resolver.exists_follow?_of_hop h
  exact key?_of_follow? (hmapped uri mapped hget) hfollow

theorem key?_of_chase {limit : Nat} {text base : String} {kind : Node.RefKind}
    {scope : List String} (h : resolver.chase limit text kind base scope = some node) :
    node.key? ≠ none :=
  Resolver.chase_induction (key?_of_hop hmapped)
    (fun reference target htarget => by rwa [Node.key?_overlay]) h

theorem key?_of_resolve (h : resolver.resolve node = some part) :
    part = node ∨ part.key? ≠ none := by
  unfold Resolver.resolve Resolver.resolveInScope at h
  split at h
  · exact .inl (Option.some.inj h).symm
  · cases h
  · obtain ⟨target, htarget, rfl⟩ := Option.map_eq_some_iff.mp h
    have hkeyed := key?_of_chase hmapped htarget
    exact .inr (by rwa [Node.key?_overlay])

theorem wellFounded_unkeyed : WellFounded (Unkeyed resolver) := by
  refine Subrelation.wf (fun {part schema} h => ?_) (measure fun node : Node => node.value.size).wf
  obtain ⟨-, hpart, member, hmember, hresolve⟩ := h
  rcases key?_of_resolve hmapped hresolve with rfl | hkeyed
  · exact Merge.size_lt_of_mem_parts hmember
  · exact absurd hpart hkeyed

theorem Passes.keyed :
    Passes resolver (fun node => node.key? ≠ none) (fun node => node.key? ≠ none) where
  fragment h := key?_of_chase hmapped h
  resolve hnode h := (key?_of_resolve hmapped h).elim (fun hsame => hsame ▸ hnode) id
  member hnode _ h := (Node.member?_eq_some_iff.mp h).2 ▸ key?_step_ne_none hnode _
  entries hnode h := by
    obtain ⟨name, -, rfl⟩ := List.mem_map.mp h
    exact key?_step_ne_none hnode name
  items hnode h := by
    obtain ⟨token, rfl⟩ := Node.exists_step_of_mem_items h
    exact key?_step_ne_none hnode token
  found_of_kept := id

end

/--
However a store was filled and wherever a schema comes from, merging its properties comes to
an end exactly if every schema without a key that it comes to is made of only so many others
without keys, one inside the other.  That is so if all that is mapped has keys.
-/
theorem ends_iff_unkeyed (resolver : Resolver) (schema : Node) :
    ((∃ n, ((Merge.step resolver)^[n] (Merge.start schema)).isDone) ↔
      ∀ own, Comes resolver schema own → own.key? = none → Acc (Unkeyed resolver) own) ∧
    ((∀ uri node, resolver.store.get? uri = some node → node.key? ≠ none) →
      ∃ n, ((Merge.step resolver)^[n] (Merge.start schema)).isDone) := by
  have hsound : (Merge.start schema).Sound (Grounded (grounds resolver schema))
      (Standing (grounds resolver schema)) := by
    refine ⟨fun _ hmem => absurd hmem List.not_mem_nil, fun own hown => ?_⟩
    rw [List.mem_singleton.mp hown]
    exact (Standing.of_mem (mem_grounds_self resolver schema)).grounded
  have hends := Merge.ends_iff_wellMade (grounds_grounds resolver schema) hsound
  refine ⟨hends.trans ⟨?_, ?_⟩, fun hmapped => hends.mpr fun _ _ _ own _ _ => ?_⟩
  · rintro hmade own ⟨n, part, hpart, hresolve⟩ hkey
    exact hmade n part hpart own hresolve hkey
  · intro hacc n part hpart own hresolve hkey
    exact hacc own ⟨n, part, hpart, hresolve⟩ hkey
  · exact (wellFounded_unkeyed hmapped).apply own

theorem not_rel_self_of_acc {α : Type} {relation : α → α → Prop} {a : α} (h : Acc relation a) :
    ¬relation a a := by
  induction h with
  | intro a _ ih => exact fun hself => ih a hself hself

def loopSchema : Json :=
  .object [("allOf", .array [.object [("$ref", .string "urn:loop")]]),
    ("properties", .object [("x", .object [("type", .string "integer")])])]

/-- What a store keeps that was given the schema under the URI by which it refers to itself. -/
def loopNode : Node := .rootOf { Document.ofValue loopSchema with mark := some 0 }

/-- Merging does not come to an end for a schema without a key that refers to itself. -/
theorem exists_endless_merge :
    let resolver := Resolver.new (.ofCalls [.insert "urn:loop" (.detached loopSchema)]) "urn:loop"
    resolver.store.get? "urn:loop" = some loopNode ∧
      ¬∃ n, ((Merge.step resolver)^[n] (Merge.start loopNode)).isDone := by
  intro resolver
  have hget : resolver.store.get? "urn:loop" = some loopNode := rfl
  let member := (loopNode.step "allOf").step "0"
  have hmember : Merge.parts loopNode = [member] := by
    have hvalue : (loopNode.step "allOf").value =
        .array [.object [("$ref", .string "urn:loop")]] := by rfl
    have hhas : loopNode.member? "allOf" = some (loopNode.step "allOf") := by rfl
    rw [Merge.parts, hhas, Option.elim_some, Node.items, hvalue]
    rfl
  have hrole : member.role = .reference "urn:loop" .lexical := by
    decide +kernel
  have hhop : resolver.hop "urn:loop" .lexical "urn:loop" [] = .found loopNode := by
    have hsplit : Reference.split "urn:loop" = ("urn:loop", "") := by decide +kernel
    have htarget : resolver.targetUri? "urn:loop" "urn:loop" = some "urn:loop" := by
      decide +kernel
    rw [Resolver.hop, hsplit]
    dsimp only
    rw [htarget]
    dsimp only
    rw [if_neg (by decide), Reference.withFragment, if_pos (by decide), hget]
  have hresolve : resolver.resolve member = some loopNode := by
    rw [Resolver.resolve, Resolver.resolveInScope, hrole]
    dsimp only
    have hbase : resolver.baseOf member = "urn:loop" := rfl
    have hsummary : member.string? "summary" = none := by decide +kernel
    have hdescription : member.string? "description" = none := by decide +kernel
    rw [hbase, Resolver.chase.eq_def, hhop]
    simp [Node.overlay, hsummary, hdescription]
  refine ⟨hget, fun hends => ?_⟩
  have hself : Unkeyed resolver loopNode loopNode :=
    ⟨rfl, rfl, member, by simp [hmember], hresolve⟩
  have hstart : resolver.resolve loopNode = some loopNode := by
    have hplain : loopNode.role = .plain := by decide +kernel
    rw [Resolver.resolve, Resolver.resolveInScope, hplain]
  have hacc := Merge.acc_of_isDone_iterate hends.choose_spec (List.mem_singleton_self loopNode)
    hstart rfl
  exact not_rel_self_of_acc hacc hself

end SpecForm.Form
