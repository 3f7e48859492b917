import SpecForm.Proofs.Resolve.Alias
import SpecForm.Proofs.Store.Renumbering

/-!
# Resolving in a renumbered store

Two stores that map and record the same, apart from the numbers of the documents, answer every
reference alike: each hop of the one is a hop of the other, so a walk in the one is a walk in the
other, and both end alike.
-/

namespace SpecForm

/-- The other store maps and records what the store does, with each document under another
number. -/
structure Store.Renumbers (number : Nat → Nat) (store other : Store) : Prop where
  mapped : ∀ uri, other.get? uri = (store.get? uri).map (Node.renumbered number)
  recorded : ∀ key, other.origins.lookup (Key.renumbered number key) = store.origins.lookup key

theorem Store.Renumbers.refl (store : Store) : store.Renumbers id store where
  mapped uri := by rw [funext Node.renumbered_id, Option.map_id']
  recorded _ := rfl

theorem Store.Renumbers.provenance? {number : Nat → Nat} {store other : Store}
    (h : store.Renumbers number other) (node : Node) :
    other.provenance? (node.renumbered number) = store.provenance? node := by
  rw [Store.provenance?, Store.provenance?, Node.key?_renumbered, Option.bind_map]
  exact Option.bind_congr fun key _ => h.recorded key

namespace Resolver

variable {number : Nat → Nat} {resolver other : Resolver}

def Hop.renumbered (number : Nat → Nat) : Hop → Hop
  | .missing => .missing
  | .found node => .found (node.renumbered number)
  | .onward uri node base => .onward uri (node.renumbered number) base

def Move.renumbered (number : Nat → Nat) : Move → Move
  | .halt target => .halt (target.map (Node.renumbered number))
  | .onward uri node base => .onward uri (node.renumbered number) base

def Outcome.renumbered (number : Nat → Nat) : Outcome → Outcome
  | .ended target => .ended (target.map (Node.renumbered number))
  | .circular => .circular

theorem Outcome.node?_renumbered (outcome : Outcome) :
    (outcome.renumbered number).node? = outcome.node?.map (Node.renumbered number) := by
  cases outcome <;> rfl

theorem Outcome.overlay_renumbered (reference : Node) (outcome : Outcome) :
    (outcome.renumbered number).overlay (reference.renumbered number) =
      (outcome.overlay reference).renumbered number := by
  match outcome with
  | .circular | .ended none => rfl
  | .ended (some target) =>
      exact congrArg (Outcome.ended ∘ some) (Node.overlay_renumbered reference target)

section

variable (h : resolver.store.Renumbers number other.store)

include h

/-! ## One hop -/

theorem logicalBase_renumbered (uri : String) :
    other.logicalBase uri = resolver.logicalBase uri := by
  unfold logicalBase
  dsimp only
  rw [h.mapped]
  cases resolver.store.get? (Reference.withoutFragment uri) <;> rfl

theorem targetUri?_renumbered (file base : String) :
    other.targetUri? file base = resolver.targetUri? file base := by
  rw [targetUri?, targetUri?, logicalBase_renumbered h]

theorem inScope?_renumbered (anchor : String) (scope : List String) :
    other.inScope? anchor scope =
      (resolver.inScope? anchor scope).map (Node.renumbered number) := by
  rw [inScope?, inScope?, List.map_findSome?]
  exact congrArg (List.findSome? · scope) (funext fun uri => h.mapped _)

theorem mapped?_renumbered (text : String) (kind : Node.RefKind) (base : String)
    (scope : List String) :
    other.mapped? text kind base scope =
      (resolver.mapped? text kind base scope).map (Node.renumbered number) := by
  rw [mapped?, mapped?]
  dsimp only
  rw [targetUri?_renumbered h]
  cases resolver.targetUri? (Reference.split text).1 base with
  | none => rfl
  | some target =>
      dsimp only [Option.bind_some]
      rw [inScope?_renumbered h, h.mapped, Option.map_or]
      split <;> rfl

theorem hopInside_renumbered (target fragment : String) :
    other.hopInside target fragment =
      (resolver.hopInside target fragment).renumbered number := by
  have hland (node : Node) :
      (if (node.renumbered number).isReference then
        Hop.onward (Reference.withFragment target fragment) (node.renumbered number)
          ((other.store.provenance? (node.renumbered number)).elim target Provenance.base)
      else .found (node.renumbered number)) =
      Hop.renumbered number (if node.isReference then
        .onward (Reference.withFragment target fragment) node
          ((resolver.store.provenance? node).elim target Provenance.base)
      else .found node) := by
    rw [h.provenance?, Node.isReference_renumbered]
    split <;> rfl
  unfold hopInside
  rw [h.mapped]
  cases resolver.store.get? target with
  | none => rfl
  | some document =>
      dsimp only [Option.map_some]
      rw [Node.follow?_renumbered]
      by_cases hempty : fragment.isEmpty
      · simp only [if_pos hempty]
        exact hland document
      · simp only [if_neg hempty]
        by_cases hpointer : Json.Pointer.isPointer fragment
        · simp only [if_pos hpointer]
          cases document.follow? (Json.Pointer.tokens fragment) with
          | none => rfl
          | some node => exact hland node
        · simp only [if_neg hpointer]
          rfl

theorem hop_renumbered (text : String) (kind : Node.RefKind) (base : String)
    (scope : List String) :
    other.hop text kind base scope = (resolver.hop text kind base scope).renumbered number := by
  rw [hop_eq, hop_eq, mapped?_renumbered h, targetUri?_renumbered h]
  cases resolver.mapped? text kind base scope with
  | some held => rfl
  | none =>
      cases resolver.targetUri? (Reference.split text).1 base with
      | none => rfl
      | some target => exact hopInside_renumbered h target _

/-! ## The whole chase -/

theorem move_renumbered (node : Node) (base : String) (scope : List String) :
    other.move (node.renumbered number) base scope =
      (resolver.move node base scope).renumbered number := by
  unfold move
  rw [Node.role_renumbered]
  cases node.role with
  | plain | broken => rfl
  | reference text kind =>
      dsimp only
      rw [hop_renumbered h]
      cases resolver.hop text kind base scope with
      | missing | onward => rfl
      | found target =>
          exact congrArg (Move.halt ∘ some) (Node.overlay_renumbered node target)

theorem walk_renumbered (guarded : Bool) (moves : Nat) (node : Node) (base : String)
    (scope : List String) :
    other.walk guarded moves (node.renumbered number) base scope =
      (resolver.walk guarded moves node base scope).map (Outcome.renumbered number) := by
  induction moves generalizing node base scope with
  | zero => rfl
  | succ moves ih =>
      have hmove := move_renumbered h node base scope
      cases hown : resolver.move node base scope with
      | halt target =>
          rw [hown] at hmove
          rw [walk_of_halt hown, walk_of_halt hmove]
          rfl
      | onward uri target next =>
          rw [hown] at hmove
          rw [walk_of_onward hown, walk_of_onward hmove, ih]
          split
          · rfl
          · rw [Option.map_map, Option.map_map]
            exact Option.map_congr fun outcome _ => Outcome.overlay_renumbered node outcome

theorem follow_renumbered (node : Node) (base : String) (scope : List String) :
    other.follow other.limit (node.renumbered number) base scope =
      (resolver.follow resolver.limit node base scope).map (Node.renumbered number) := by
  obtain ⟨outcome, hwalk⟩ := resolver.exists_walk node base scope
  obtain ⟨outcome', hwalk'⟩ := other.exists_walk (node.renumbered number) base scope
  have hsame := walk_renumbered h true (resolver.limit + 1) node base scope
  rw [hwalk, Option.map_some] at hsame
  obtain rfl := walk_unique hwalk' hsame
  rw [follow_eq_node? hwalk' (Nat.le_refl _), follow_eq_node? hwalk (Nat.le_refl _),
    Outcome.node?_renumbered]

theorem resolveReference_renumbered (text base : String) (scope : List String) :
    other.resolveReference text base scope =
      (resolver.resolveReference text base scope).map (Node.renumbered number) := by
  rw [resolveReference_eq_follow, resolveReference_eq_follow]
  exact follow_renumbered h (.ofReference text) base scope

end

end Resolver

end SpecForm
