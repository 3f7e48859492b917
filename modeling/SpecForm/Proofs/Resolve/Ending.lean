import SpecForm.Proofs.Resolve.Trail
import SpecForm.Proofs.Store.Growth

/-!
# Where a chase ends

The last reference of a chase is answered in one of two ways.  If the keys of the
store answer it, the node that is mapped is taken as it is, be it a reference or
not.  Otherwise a pointer is followed, and what it leads to is taken only if it is
no reference.
-/

namespace SpecForm

namespace Node

theorem role_eq_plain {node : Node} (h : ¬node.isReference) : node.role = .plain := by
  rw [isReference, Bool.or_eq_true, not_or] at h
  obtain ⟨href, hdynamic⟩ := h
  simp only [has, Option.not_isSome_iff_eq_none] at href hdynamic
  simp [role, href, hdynamic]

theorem isReference_congr {node other : Node}
    (h : ∀ name ∈ ["$ref", "$dynamicRef"], node.value.member? name = other.value.member? name) :
    node.isReference = other.isReference := by
  simp [isReference, has, h]

theorem value_withValue (node : Node) (value : Json) : (node.withValue value).value = value := by
  simp [withValue, rootOf, Node.value, Json.Pointer.eval?]

theorem isReference_overlay (reference target : Node) :
    (reference.overlay target).isReference = target.isReference := by
  unfold overlay
  dsimp only
  split
  · rfl
  · split
    · rename_i members hvalue
      apply isReference_congr
      intro name hname
      have hnotes : name ≠ "summary" ∧ name ≠ "description" := by
        simp only [List.mem_cons, List.not_mem_nil, or_false] at hname
        rcases hname with rfl | rfl <;> simp
      rw [value_withValue, hvalue]
      cases reference.string? "summary" <;> cases reference.string? "description" <;>
        simp [Json.member?, Json.lookup_setMember, hnotes]
    · rfl

end Node

namespace Resolver

variable {resolver : Resolver} {node found held : Node} {text base target fragment : String}
  {kind : Node.RefKind} {scope : List String} {hops : List (Node × String)}

/-! ## Keys -/

/-- What the keys of the store say that a reference names: a dynamic one the anchor in the
scope, any other, and one that is not in the scope, what is mapped under the full URI. -/
def mapped? (resolver : Resolver) (text : String) (kind : Node.RefKind) (base : String)
    (scope : List String) : Option Node :=
  let (file, fragment) := Reference.split text
  (resolver.targetUri? file base).bind fun target =>
    (if kind = .dynamic && !fragment.isEmpty && !Json.Pointer.isPointer fragment then
      resolver.inScope? fragment scope
    else none).or (resolver.store.get? (Reference.withFragment target fragment))

theorem hop_eq (resolver : Resolver) (text : String) (kind : Node.RefKind) (base : String)
    (scope : List String) :
    resolver.hop text kind base scope =
      match resolver.mapped? text kind base scope with
      | some held => .found held
      | none => (resolver.targetUri? (Reference.split text).1 base).elim .missing
          (resolver.hopInside · (Reference.split text).2) := by
  unfold hop mapped?
  dsimp only
  cases resolver.targetUri? (Reference.split text).1 base with
  | none => rfl
  | some target =>
      dsimp only [Option.bind_some, Option.elim_some]
      generalize (if kind = .dynamic && !(Reference.split text).2.isEmpty &&
        !Json.Pointer.isPointer (Reference.split text).2 then
          resolver.inScope? (Reference.split text).2 scope else none) = redirected
      cases redirected with
      | some held => rfl
      | none =>
          cases resolver.store.get? (Reference.withFragment target (Reference.split text).2) <;> rfl

/-- Read against the base, the text names the fragment of the target. -/
structure Names (resolver : Resolver) (text base target fragment : String) : Prop where
  target : resolver.targetUri? (Reference.split text).1 base = some target
  fragment : (Reference.split text).2 = fragment

theorem Names.mapped? {target : String} (h : resolver.Names text base target fragment)
    (kind : Node.RefKind) (scope : List String) :
    resolver.mapped? text kind base scope =
      (if kind = .dynamic && !fragment.isEmpty && !Json.Pointer.isPointer fragment then
        resolver.inScope? fragment scope
      else none).or (resolver.store.get? (Reference.withFragment target fragment)) := by
  obtain ⟨htarget, rfl⟩ := h
  simp only [Resolver.mapped?, htarget, Option.bind_some]

theorem Names.mapped?_of_not_anchor (h : resolver.Names text base target fragment)
    (hanchor : ¬(kind = .dynamic ∧ fragment ≠ "" ∧ ¬Json.Pointer.isPointer fragment))
    (scope : List String) :
    resolver.mapped? text kind base scope =
      resolver.store.get? (Reference.withFragment target fragment) := by
  have hlexical : (kind = .dynamic && !fragment.isEmpty &&
      !Json.Pointer.isPointer fragment) = false := by
    rw [Bool.eq_false_iff]
    intro htrue
    apply hanchor
    simpa [and_assoc] using htrue
  rw [h.mapped?, hlexical]
  rfl

theorem Names.hop_of_unmapped {target : String} (h : resolver.Names text base target fragment)
    (hunmapped : resolver.mapped? text kind base scope = none) :
    resolver.hop text kind base scope = resolver.hopInside target fragment := by
  simp [hop_eq, hunmapped, h.target, h.fragment]

theorem not_isReference_of_hopInside (h : resolver.hopInside target fragment = .found found) :
    ¬found.isReference := by
  unfold hopInside at h
  split at h
  · cases h
  · dsimp only at h
    split at h
    · cases h
    · split at h
      · cases h
      · rename_i hplain
        obtain rfl := Hop.found.inj h
        exact hplain

/-- A chase ends with a node that the keys name, or else with one that is no reference. -/
theorem move_halt_cases (h : resolver.move node base scope = .halt (some found)) :
    (∃ text kind held, node.role = .reference text kind ∧
      resolver.mapped? text kind base scope = some held ∧ found = node.overlay held) ∨
    (¬found.isReference ∧ ∀ text kind, node.role = .reference text kind →
      resolver.mapped? text kind base scope = none) := by
  unfold move at h
  cases hrole : node.role with
  | plain =>
      obtain rfl : node = found := by simpa [hrole] using h
      exact .inr ⟨fun hreference => Node.role_ne_plain hreference hrole, by simp⟩
  | broken => simp [hrole] at h
  | reference text kind =>
      simp only [hrole] at h
      cases hmapped : resolver.mapped? text kind base scope with
      | some held =>
          obtain rfl : node.overlay held = found := by simpa [hop_eq, hmapped] using h
          exact .inl ⟨text, kind, held, rfl, hmapped, rfl⟩
      | none =>
          right
          constructor
          · rw [hop_eq, hmapped] at h
            cases htarget : resolver.targetUri? (Reference.split text).1 base with
            | none => simp [htarget] at h
            | some target =>
                simp only [htarget, Option.elim_some] at h
                cases hinside : resolver.hopInside target (Reference.split text).2 with
                | missing => simp [hinside] at h
                | onward uri beyond next => simp [hinside] at h
                | found pointed =>
                    obtain rfl : node.overlay pointed = found := by simpa [hinside] using h
                    rw [Node.isReference_overlay]
                    exact not_isReference_of_hopInside hinside
          · intro other sort hother
            obtain ⟨rfl, rfl⟩ := Node.Role.reference.inj hother
            exact hmapped

theorem move_of_mapped (hrole : node.role = .reference text kind)
    (h : resolver.mapped? text kind base scope = some held) :
    resolver.move node base scope = .halt (some (node.overlay held)) := by
  simp [move, hrole, hop_eq, h]

/-! ## References that are returned -/

theorem isReference_overlays (hops : List (Node × String)) (target : Node) :
    (overlays hops target).isReference = target.isReference := by
  induction hops with
  | nil => rfl
  | cons hop hops ih => exact (Node.isReference_overlay _ _).trans ih

theorem resolveInScope_of_not_isReference (h : ¬node.isReference) (scope : List String) :
    resolver.resolveInScope node scope = some node := by
  simp [resolveInScope, Node.role_eq_plain h]

/--
What a node resolves to is itself a reference exactly if the keys of the store name a
reference where the chase ends: that node is returned as it was mapped, under the notes of
the chain.  In any other case the chase ended at a node that is no reference, and resolving
that node gives nothing new, whatever the scope.
-/
theorem resolveInScope_isReference_iff (resolver : Resolver) (node found : Node)
    (scope : List String) (h : resolver.resolveInScope node scope = some found) :
    (found.isReference ↔ ∃ hops last base text kind held,
      resolver.Trail (node, resolver.baseOf node) hops (last, base) ∧
      last.role = .reference text kind ∧
      resolver.mapped? text kind base (scope ++ uris hops) = some held ∧ held.isReference ∧
      found = overlays hops (last.overlay held)) ∧
    (¬found.isReference → ∀ passed, resolver.resolveInScope found passed = some found) := by
  rw [resolveInScope_eq_follow, follow_eq_some_iff] at h
  obtain ⟨hops, ⟨last, base⟩, target, htrail, -, hhalt, rfl⟩ := h
  refine ⟨?_, resolveInScope_of_not_isReference⟩
  rw [isReference_overlays]
  constructor
  · intro hreference
    rcases move_halt_cases hhalt with ⟨text, kind, held, hrole, hmapped, rfl⟩ | ⟨hplain, -⟩
    · rw [Node.isReference_overlay] at hreference
      exact ⟨hops, last, base, text, kind, held, htrail, hrole, hmapped, hreference, rfl⟩
    · exact absurd hreference hplain
  · rintro ⟨hops', last', base', text, kind, held, htrail', hrole, hmapped, hreference, -⟩
    have hhalt' := move_of_mapped hrole hmapped
    have hend' : ∀ uri beyond, ¬resolver.Links (last', base') uri beyond :=
      not_links_of_halt hhalt'
    obtain ⟨rfl, hlast⟩ := htrail.unique htrail' (not_links_of_halt hhalt) hend'
    obtain ⟨rfl, rfl⟩ := Prod.mk.inj hlast
    obtain rfl := Option.some.inj (Move.halt.inj (hhalt.symm.trans hhalt'))
    rw [Node.isReference_overlay]
    exact hreference

theorem resolveInScope_isReference_iff_pointers :
    let uri := "https://x.test/pets.json"
    let resolver := Resolver.new (.ofDocuments [(uri, .object
      [("Pet", .object [("$ref", .string "#/Cat"), ("summary", .string "A pet")]),
        ("Cat", .object [("$ref", .string "#/Animal")]),
        ("Animal", .object [("type", .string "object")])])]) uri
    ∃ root found, resolver.store.get? uri = some root ∧
      resolver.resolve (root.step "Pet") = some found ∧ ¬found.isReference ∧
      ∀ passed, resolver.resolveInScope found passed = some found := by
  intro uri resolver
  have hrun : ((resolver.store.get? uri).bind fun root => resolver.resolve (root.step "Pet")).map
      Node.isReference = some false := by decide +kernel
  obtain ⟨found, hbind, hplain⟩ := Option.map_eq_some_iff.mp hrun
  obtain ⟨root, hroot, hfound⟩ := Option.bind_eq_some_iff.mp hbind
  have hreference : ¬found.isReference := by simp [hplain]
  exact ⟨root, found, hroot, hfound, hreference,
    (resolveInScope_isReference_iff resolver _ found [] hfound).2 hreference⟩

/-- However a key names it, by a document, an identifier, an anchor or an anchor in the
scope, a reference is returned as such, and resolving it again leads further. -/
theorem exists_reference_resolved :
    let uri := "https://x.test/pets.json"
    let resolver := Resolver.new (.ofDocuments [(uri, .object
        [("document", .object [("$ref", .string "cat.json")]),
          ("identifier", .object [("$ref", .string "id.json")]),
          ("anchor", .object [("$ref", .string "#cat")]),
          ("dynamic", .object [("$dynamicRef", .string "#cat")]),
          ("Id", .object [("$id", .string "id.json"), ("$ref", .string "animal.json")]),
          ("Cat", .object [("$dynamicAnchor", .string "cat"), ("$ref", .string "animal.json")])]),
      ("https://x.test/cat.json", .object [("$ref", .string "animal.json")]),
      ("https://x.test/animal.json", .object [("type", .string "object")])]) uri
    ∀ name ∈ ["document", "identifier", "anchor", "dynamic"],
      ∃ root found, resolver.store.get? uri = some root ∧
        resolver.resolveInScope (root.step name) [uri] = some found ∧ found.isReference ∧
        resolver.resolveInScope found [uri] ≠ some found := by
  intro uri resolver name hname
  have hrun : (resolver.store.get? uri).bind (fun root =>
      (resolver.resolveInScope (root.step name) [uri]).map fun found =>
        (found.isReference, (resolver.resolveInScope found [uri]).map Node.isReference)) =
      some (true, some false) := by
    revert name
    decide +kernel
  obtain ⟨root, hroot, hresolved⟩ := Option.bind_eq_some_iff.mp hrun
  obtain ⟨found, hfound, hvalues⟩ := Option.map_eq_some_iff.mp hresolved
  obtain ⟨hreference, hagain⟩ := Prod.mk.inj hvalues
  refine ⟨root, found, hroot, hfound, hreference, fun hsame => ?_⟩
  rw [hsame, Option.map_some, hreference] at hagain
  cases hagain

end Resolver

end SpecForm
