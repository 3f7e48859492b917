import Mathlib.Data.Finset.Card
import Mathlib.Data.Set.Basic
import SpecForm.Proofs.Resolve.Hop

/-!
# The whole chase

A walk makes at most so many moves and says whether it ended by then; with the
guard it ends where a URI comes back, and without it the scope is only kept for
dynamic references.  The guard ends every walk, and a walk that it ends would
have gone on for ever: the URI that came back leads to the node that it led to
before.
-/

namespace SpecForm.Resolver

/-! ## Walks -/

/-- How a walk ends: with a node or without one, or because a URI came back. -/
inductive Outcome where
  | ended (target : Option Node)
  | circular

namespace Outcome

def node? : Outcome → Option Node
  | .ended target => target
  | .circular => none

def overlay (reference : Node) : Outcome → Outcome
  | .ended target => .ended (target.map reference.overlay)
  | .circular => .circular

@[simp] theorem node?_overlay (reference : Node) (outcome : Outcome) :
    (outcome.overlay reference).node? = outcome.node?.map reference.overlay := by
  cases outcome <;> rfl

@[simp] theorem overlay_eq_circular {reference : Node} {outcome : Outcome} :
    outcome.overlay reference = .circular ↔ outcome = .circular := by
  cases outcome <;> simp [overlay]

end Outcome

inductive Move where
  | halt (target : Option Node)
  | onward (uri : String) (node : Node) (base : String)

def move (resolver : Resolver) (node : Node) (base : String) (scope : List String) : Move :=
  match node.role with
  | .plain => .halt (some node)
  | .broken => .halt none
  | .reference text kind =>
      match resolver.hop text kind base scope with
      | .missing => .halt none
      | .found target => .halt (some (node.overlay target))
      | .onward uri target next => .onward uri target next

/-- Follows a node that is read against a base; `none` if the walk has not ended by so
many moves. -/
def walk (resolver : Resolver) (guarded : Bool) :
    Nat → Node → String → List String → Option Outcome
  | 0, _, _, _ => none
  | moves + 1, node, base, scope =>
      match resolver.move node base scope with
      | .halt target => some (.ended target)
      | .onward uri target next =>
          if guarded && scope.contains uri then some .circular
          else (walk resolver guarded moves target next (scope ++ [uri])).map
            (Outcome.overlay node)

section

variable {resolver : Resolver} {guarded : Bool} {moves more : Nat} {node target : Node}
  {base uri next : String} {scope : List String} {outcome free : Outcome}

/-! ## Moves -/

theorem move_of_onward (h : resolver.move node base scope = .onward uri target next) :
    ∃ text kind, node.role = .reference text kind ∧
      resolver.hop text kind base scope = .onward uri target next := by
  unfold move at h
  split at h
  · cases h
  · cases h
  · rename_i text kind hrole
    refine ⟨text, kind, hrole, ?_⟩
    split at h <;> cases h
    assumption

theorem move_onward_in (h : resolver.move node base scope = .onward uri target next)
    (passed : List String) : resolver.move node base passed = .onward uri target next := by
  obtain ⟨text, kind, hrole, hhop⟩ := move_of_onward h
  have hhop' : resolver.hop text kind base passed = .onward uri target next :=
    hop_eq_onward_iff.mpr (hop_eq_onward_iff.mp hhop)
  simp [move, hrole, hhop']

theorem move_unique {node' target' : Node} {base' next' : String} {passed : List String}
    (h : resolver.move node base scope = .onward uri target next)
    (h' : resolver.move node' base' passed = .onward uri target' next') :
    target = target' ∧ next = next' := by
  obtain ⟨_, _, _, hhop⟩ := move_of_onward h
  obtain ⟨_, _, _, hhop'⟩ := move_of_onward h'
  exact onward_unique hhop hhop'

theorem role_ne_plain_of_move (h : resolver.move node base scope = .onward uri target next) :
    target.role ≠ .plain := by
  obtain ⟨_, _, _, hhop⟩ := move_of_onward h
  obtain ⟨_, _, _, hinside⟩ := hop_eq_onward_iff.mp hhop
  exact Node.role_ne_plain (of_hopInside_eq_onward hinside).2.1

/-! ## Walks of different lengths -/

theorem walk_of_halt {target : Option Node} (h : resolver.move node base scope = .halt target) :
    resolver.walk guarded (moves + 1) node base scope = some (.ended target) := by
  rw [walk, h]

theorem walk_of_onward (h : resolver.move node base scope = .onward uri target next) :
    resolver.walk guarded (moves + 1) node base scope =
      if guarded && scope.contains uri then some .circular
      else (resolver.walk guarded moves target next (scope ++ [uri])).map
        (Outcome.overlay node) := by
  rw [walk, h]

theorem walk_mono (h : resolver.walk guarded moves node base scope = some outcome)
    (hle : moves ≤ more) : resolver.walk guarded more node base scope = some outcome := by
  induction moves generalizing more node base scope outcome with
  | zero => simp [walk] at h
  | succ moves ih =>
      obtain ⟨more, rfl⟩ : ∃ rest, more = rest + 1 := ⟨more - 1, by omega⟩
      cases hmove : resolver.move node base scope with
      | halt target =>
          rw [walk_of_halt hmove] at h ⊢
          exact h
      | onward uri target next =>
          rw [walk_of_onward hmove] at h ⊢
          split
          · rename_i hold
            rwa [if_pos hold] at h
          · rename_i hnew
            rw [if_neg hnew] at h
            obtain ⟨ending, hrest, rfl⟩ := Option.map_eq_some_iff.mp h
            rw [ih hrest (by omega), Option.map_some]

theorem walk_unique (h : resolver.walk guarded moves node base scope = some outcome)
    (h' : resolver.walk guarded more node base scope = some free) : outcome = free := by
  have hmax := walk_mono h (Nat.le_max_left moves more)
  rw [walk_mono h' (Nat.le_max_right moves more), Option.some.injEq] at hmax
  exact hmax.symm

theorem walk_unguarded (h : resolver.walk true moves node base scope = some outcome)
    (hend : outcome ≠ .circular) : resolver.walk false moves node base scope = some outcome := by
  induction moves generalizing node base scope outcome with
  | zero => simp [walk] at h
  | succ moves ih =>
      cases hmove : resolver.move node base scope with
      | halt target =>
          rw [walk_of_halt hmove] at h ⊢
          exact h
      | onward uri target next =>
          rw [walk_of_onward hmove] at h ⊢
          simp only [Bool.true_and, Bool.false_and, Bool.false_eq_true, if_false] at h ⊢
          split at h
          · exact absurd (Option.some.inj h).symm hend
          · obtain ⟨ending, hrest, rfl⟩ := Option.map_eq_some_iff.mp h
            rw [ih hrest (mt Outcome.overlay_eq_circular.mpr hend), Option.map_some]

/-! ## Ending -/

open Classical in
noncomputable def placesAhead (resolver : Resolver) (first : String) (scope : List String) :
    Finset String :=
  (resolver.store.places first).toFinset.filter (· ∉ scope)

theorem card_placesAhead_le (resolver : Resolver) (first : String) (scope : List String) :
    (resolver.placesAhead first scope).card ≤ resolver.limit :=
  calc (resolver.placesAhead first scope).card
      ≤ (resolver.store.places first).toFinset.card := Finset.card_filter_le _ _
    _ ≤ (resolver.store.places first).length := List.toFinset_card_le _
    _ ≤ resolver.store.hopBound := resolver.store.length_places_le first
    _ ≤ resolver.limit := resolver.hopBound_le_limit

theorem card_placesAhead_lt {first : String} (hplace : uri ∈ resolver.store.places first)
    (hnew : uri ∉ scope) :
    (resolver.placesAhead first (scope ++ [uri])).card <
      (resolver.placesAhead first scope).card := by
  apply Finset.card_lt_card
  refine ⟨fun place h => ?_, fun h => ?_⟩
  · simp only [placesAhead, Finset.mem_filter, List.mem_append, not_or] at h ⊢
    exact ⟨h.1, h.2.1⟩
  · have hmem : uri ∈ resolver.placesAhead first (scope ++ [uri]) :=
      h (by simpa [placesAhead] using ⟨hplace, hnew⟩)
    simp [placesAhead] at hmem

theorem walk_ends (first : String) {limit : Nat}
    (hfirst : ∀ text kind, node.role = .reference text kind →
      (Reference.split text).2 ∈ first :: resolver.store.fragments)
    (hlimit : (resolver.placesAhead first scope).card ≤ limit) :
    ∃ outcome, resolver.walk true (limit + 1) node base scope = some outcome := by
  induction limit using Nat.strongRecOn generalizing node base scope with
  | ind limit ih =>
      cases hmove : resolver.move node base scope with
      | halt target => exact ⟨_, walk_of_halt hmove⟩
      | onward uri target next =>
          obtain ⟨text, kind, hrole, hhop⟩ := move_of_onward hmove
          obtain ⟨hplace, hnext⟩ := onward_mem_places hhop (hfirst text kind hrole)
          by_cases hold : uri ∈ scope
          · exact ⟨.circular, by simp [walk_of_onward hmove, hold]⟩
          · -- A move that the guard lets pass uses up a place.
            have hless := card_placesAhead_lt hplace hold
            obtain ⟨rest, rfl⟩ : ∃ rest, limit = rest + 1 := ⟨limit - 1, by omega⟩
            obtain ⟨ending, hrest⟩ : ∃ ending, resolver.walk true (rest + 1) target next
                (scope ++ [uri]) = some ending := ih rest (by omega) hnext (by omega)
            exact ⟨ending.overlay node, by simp [walk_of_onward hmove, hold, hrest]⟩

/-! ## What the resolver returns -/

/-- What a node stands for, over at most `limit` further references. -/
def follow (resolver : Resolver) (limit : Nat) (node : Node) (base : String)
    (scope : List String) : Option Node :=
  match node.role with
  | .plain => some node
  | .broken => none
  | .reference text kind => (resolver.chase limit text kind base scope).map node.overlay

theorem follow_of_halt {target : Option Node}
    (h : resolver.move node base scope = .halt target) (limit : Nat) :
    resolver.follow limit node base scope = target := by
  unfold move at h
  unfold follow
  cases hrole : node.role with
  | plain => simpa [hrole] using h
  | broken => simpa [hrole] using h
  | reference text kind =>
      simp only [hrole] at h ⊢
      rw [chase.eq_def]
      cases hhop : resolver.hop text kind base scope with
      | missing => simpa [hhop] using h
      | found found => simpa [hhop] using h
      | onward uri target next => simp [hhop] at h

theorem follow_of_onward (h : resolver.move node base scope = .onward uri target next)
    (limit : Nat) :
    resolver.follow limit node base scope =
      if scope.contains uri then none
      else match limit with
        | 0 => none
        | limit + 1 =>
            (resolver.follow limit target next (scope ++ [uri])).map node.overlay := by
  obtain ⟨text, kind, hrole, hhop⟩ := move_of_onward h
  rw [follow, hrole]
  dsimp only
  rw [chase.eq_def, hhop]
  dsimp only
  split
  · rfl
  · cases limit with
    | zero => rfl
    | succ limit =>
        cases htarget : target.role with
        | plain => exact absurd htarget (role_ne_plain_of_move h)
        | broken => simp [follow, htarget]
        | reference text kind => simp [follow, htarget]

theorem follow_eq_node? {limit : Nat}
    (h : resolver.walk true moves node base scope = some outcome) (hle : moves ≤ limit + 1) :
    resolver.follow limit node base scope = outcome.node? := by
  induction moves generalizing limit node base scope outcome with
  | zero => simp [walk] at h
  | succ moves ih =>
      cases hmove : resolver.move node base scope with
      | halt target =>
          rw [walk_of_halt hmove, Option.some.injEq] at h
          rw [follow_of_halt hmove, ← h, Outcome.node?]
      | onward uri target next =>
          rw [walk_of_onward hmove, Bool.true_and] at h
          rw [follow_of_onward hmove]
          split at h
          · rename_i hold
            rw [if_pos hold, ← Option.some.inj h, Outcome.node?]
          · rename_i hnew
            obtain ⟨ending, hrest, rfl⟩ := Option.map_eq_some_iff.mp h
            rw [if_neg hnew, Outcome.node?_overlay]
            cases limit with
            | zero =>
                obtain rfl : moves = 0 := by omega
                simp [walk] at hrest
            | succ limit =>
                have hfollow : resolver.follow limit target next (scope ++ [uri]) =
                    ending.node? := ih hrest (by omega)
                exact congrArg (Option.map node.overlay) hfollow

/-! ## What the guard ends -/

def Leads (resolver : Resolver) (place : Node × String) (uri : String)
    (beyond : Node × String) : Prop :=
  resolver.move place.1 place.2 [] = .onward uri beyond.1 beyond.2

theorem walk_of_closed {circle : Set (Node × String)}
    (hclosed : ∀ place ∈ circle, ∃ uri, ∃ beyond ∈ circle, resolver.Leads place uri beyond)
    (hplace : (node, base) ∈ circle) :
    resolver.walk false moves node base scope = none := by
  induction moves generalizing node base scope with
  | zero => rfl
  | succ moves ih =>
      obtain ⟨uri, ⟨target, next⟩, hbeyond, hmove⟩ := hclosed _ hplace
      rw [walk_of_onward (move_onward_in hmove scope)]
      simp [ih hbeyond]

/-- The places that a walk has passed lead to one another or to where it stands, and the
URIs of its scope led to them. -/
structure Passed (resolver : Resolver) (scope : List String) (here : Node × String)
    (passed : Set (Node × String)) : Prop where
  leads : ∀ place ∈ passed, ∃ uri, ∃ beyond ∈ insert here passed,
    resolver.Leads place uri beyond
  scope : ∀ uri ∈ scope, ∃ place, ∃ beyond ∈ insert here passed,
    resolver.Leads place uri beyond

namespace Passed

variable {here beyond : Node × String} {passed : Set (Node × String)}

theorem start (resolver : Resolver) (here : Node × String) : resolver.Passed [] here ∅ :=
  ⟨by simp, by simp⟩

theorem onward (h : resolver.Passed scope here passed) (hleads : resolver.Leads here uri beyond) :
    resolver.Passed (scope ++ [uri]) beyond (insert here passed) where
  leads place hplace := by
    rcases hplace with rfl | hplace
    · exact ⟨uri, beyond, Set.mem_insert _ _, hleads⟩
    · obtain ⟨uri, later, hlater, hplace⟩ := h.leads place hplace
      exact ⟨uri, later, Set.mem_insert_of_mem _ hlater, hplace⟩
  scope other hother := by
    rcases List.mem_append.mp hother with hold | hnew
    · obtain ⟨place, later, hlater, hplace⟩ := h.scope other hold
      exact ⟨place, later, Set.mem_insert_of_mem _ hlater, hplace⟩
    · obtain rfl := List.mem_singleton.mp hnew
      exact ⟨here, beyond, Set.mem_insert _ _, hleads⟩

theorem closed (h : resolver.Passed scope here passed) (hleads : resolver.Leads here uri beyond)
    (hold : uri ∈ scope) : ∀ place ∈ insert here passed, ∃ uri, ∃ later ∈ insert here passed,
      resolver.Leads place uri later := by
  intro place hplace
  rcases hplace with rfl | hplace
  · obtain ⟨first, again, hagain, hfirst⟩ := h.scope uri hold
    -- The URI that came back leads to where it led before.
    have hsame : again = beyond := Prod.ext_iff.mpr (move_unique hfirst hleads)
    exact ⟨uri, beyond, hsame ▸ hagain, hleads⟩
  · exact h.leads place hplace

end Passed

theorem walk_of_circular {passed : Set (Node × String)}
    (hpassed : resolver.Passed scope (node, base) passed)
    (h : resolver.walk true moves node base scope = some .circular) (more : Nat) :
    resolver.walk false more node base scope = none := by
  induction moves generalizing node base scope passed more with
  | zero => simp [walk] at h
  | succ moves ih =>
      cases hmove : resolver.move node base scope with
      | halt target => simp [walk_of_halt hmove] at h
      | onward uri target next =>
          have hleads : resolver.Leads (node, base) uri (target, next) := move_onward_in hmove []
          rw [walk_of_onward hmove, Bool.true_and] at h
          split at h
          · rename_i hold
            exact walk_of_closed (hpassed.closed hleads (by simpa using hold))
              (Set.mem_insert _ _)
          · obtain ⟨ending, hrest, hending⟩ := Option.map_eq_some_iff.mp h
            obtain rfl := Outcome.overlay_eq_circular.mp hending
            cases more with
            | zero => rfl
            | succ more =>
                rw [walk_of_onward hmove]
                simp [ih (hpassed.onward hleads) hrest more]

end

/-! ## Resolving -/

theorem resolveInScope_eq_follow (resolver : Resolver) (node : Node) (scope : List String) :
    resolver.resolveInScope node scope =
      resolver.follow resolver.limit node (resolver.baseOf node) scope := rfl

theorem exists_walk (resolver : Resolver) (node : Node) (base : String) (scope : List String) :
    ∃ outcome, resolver.walk true (resolver.limit + 1) node base scope = some outcome := by
  cases hrole : node.role with
  | plain | broken =>
      exact walk_ends "" (by simp [hrole]) (resolver.card_placesAhead_le _ _)
  | reference text kind =>
      refine walk_ends (Reference.split text).2 ?_ (resolver.card_placesAhead_le _ _)
      rintro _ _ hrole'
      rw [hrole, Node.Role.reference.injEq] at hrole'
      simp [hrole'.1]

/--
Whatever the store maps and whichever node is asked for, the chase ends, and the
resolver returns what it ends with.  A chase without the guard that ends by
itself ends alike, and the guard answers only where a chase without it never
ends.
-/
theorem resolve_eq_unguarded (resolver : Resolver) (node : Node) :
    ∃ moves outcome,
      resolver.walk true moves node (resolver.baseOf node) [] = some outcome ∧
      resolver.resolve node = outcome.node? ∧
      (∀ more free, resolver.walk false more node (resolver.baseOf node) [] = some free →
        free = outcome) ∧
      (outcome = .circular ↔
        ∀ more, resolver.walk false more node (resolver.baseOf node) [] = none) := by
  obtain ⟨outcome, hwalk⟩ := resolver.exists_walk node (resolver.baseOf node) []
  have hcircular : outcome = .circular →
      ∀ more, resolver.walk false more node (resolver.baseOf node) [] = none := by
    rintro rfl
    exact walk_of_circular (.start resolver _) hwalk
  refine ⟨_, outcome, hwalk, ?_, ?_, hcircular, ?_⟩
  · rw [resolve, resolveInScope_eq_follow, follow_eq_node? hwalk (Nat.le_refl _)]
  · intro more free hfree
    by_cases hend : outcome = .circular
    · rw [hcircular hend more] at hfree
      cases hfree
    · exact walk_unique hfree (walk_unguarded hwalk hend)
  · intro hnever
    by_contra hend
    have hsome := walk_unguarded hwalk hend
    rw [hnever] at hsome
    cases hsome

end SpecForm.Resolver
