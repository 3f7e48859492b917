import SpecForm.Proofs.Resolve.Alias

/-!
# References that the scope has no say in

The scope of a chase is asked for the anchor of a dynamic reference, and for the URI at which a
reference was found, which ends the chase if it is there.  So a chase over `$ref` alone comes
out in every scope as it does in the empty one, or it does not come out at all: it ends without
a node exactly where the scope has one of the URIs on its way.
-/

namespace SpecForm.Resolver

variable {resolver : Resolver} {place last last' : Node × String} {node : Node}
  {base text : String} {scope scope' : List String} {hops hops' : List (Node × String)}

/-! ## One move -/

theorem mapped?_lexical (resolver : Resolver) (text base : String) (scope scope' : List String) :
    resolver.mapped? text .lexical base scope = resolver.mapped? text .lexical base scope' := by
  simp [mapped?]

theorem move_of_lexical (h : ∀ text kind, node.role = .reference text kind → kind = .lexical)
    (base : String) (scope scope' : List String) :
    resolver.move node base scope = resolver.move node base scope' := by
  apply move_congr
  intro text kind hrole
  obtain rfl := h text kind hrole
  exact resolver.mapped?_lexical text base scope scope'

/-! ## The way of a chase -/

/-- On its way from a place a chase in the empty scope passes the trail: no URI comes back on
it, which is where the guard would have ended the chase. -/
structure Visits (resolver : Resolver) (place : Node × String) (hops : List (Node × String))
    (last : Node × String) : Prop where
  trail : resolver.Trail place hops last
  nodup : (uris hops).Nodup

theorem Trail.subset_whole (h : resolver.Trail place hops last)
    (h' : resolver.Trail place hops' last') (hend : ∀ uri beyond, ¬resolver.Links last' uri beyond) :
    uris hops ⊆ uris hops' ∧ last.1 ∈ hops'.map Prod.fst ++ [last'.1] := by
  induction h generalizing hops' with
  | nil place =>
      refine ⟨List.nil_subset _, ?_⟩
      cases h' <;> simp
  | cons hlinks _ ih =>
      cases h' with
      | nil => exact absurd hlinks (hend _ _)
      | cons hlinks' hrest' =>
          obtain ⟨rfl, rfl⟩ := hlinks.unique hlinks'
          obtain ⟨huris, hlast⟩ := ih hrest'
          exact ⟨List.cons_subset_cons _ huris, List.mem_cons_of_mem _ hlast⟩

theorem not_links_trace {more : Nat} (h : (resolver.trace more place).1.length < more)
    (uri : String) (beyond : Node × String) :
    ¬resolver.Links (resolver.trace more place).2 uri beyond := by
  induction more generalizing place with
  | zero => simp at h
  | succ more ih =>
      rw [trace] at h ⊢
      cases hmove : resolver.move place.1 place.2 [] with
      | halt target => exact not_links_of_halt hmove uri beyond
      | onward found node next =>
          simp only [hmove, List.length_cons, Nat.add_lt_add_iff_right] at h
          exact ih h

/-! ## The whole chase -/

theorem follow_eq_none_of_visits (h : resolver.Visits place hops last) {uri : String}
    (huri : uri ∈ uris hops) (hscope : uri ∈ scope) :
    resolver.follow resolver.limit place.1 place.2 scope = none := by
  rw [Option.eq_none_iff_forall_ne_some]
  intro found hfound
  obtain ⟨hops', last', _, htrail, hfresh, hhalt, -⟩ := follow_eq_some_iff.mp hfound
  obtain ⟨huris, -⟩ := h.trail.subset_whole htrail (not_links_of_halt hhalt)
  exact hfresh.2 uri (huris huri) hscope

theorem follow_of_lexical {found : Node}
    (hlexical : ∀ hops last, resolver.Visits place hops last →
      ∀ text kind, last.1.role = .reference text kind → kind = .lexical)
    (hnew : ∀ hops last, resolver.Visits place hops last → ∀ uri ∈ uris hops, uri ∉ scope')
    (h : resolver.follow resolver.limit place.1 place.2 scope = some found) :
    resolver.follow resolver.limit place.1 place.2 scope' = some found := by
  refine follow_of_follow h fun hops last htrail _ hfresh => ?_
  have hvisits : resolver.Visits place hops last := ⟨htrail, hfresh.1⟩
  exact ⟨⟨hfresh.1, hnew hops last hvisits⟩, move_of_lexical (hlexical hops last hvisits) _ _ _⟩

/--
Let every reference that resolving a node comes to be a `$ref`, whatever the store maps and
whether or not the chase ends.  In a scope that has none of the URIs at which these references
are found the node resolves as it does in the empty scope, to the same node or to none.  In any
other scope it resolves to nothing.
-/
theorem resolveInScope_of_lexical (resolver : Resolver) (node : Node) (scope : List String)
    (hlexical : ∀ hops last, resolver.Visits (node, resolver.baseOf node) hops last →
      ∀ text kind, last.1.role = .reference text kind → kind = .lexical) :
    ((∀ hops last, resolver.Visits (node, resolver.baseOf node) hops last →
        ∀ uri ∈ uris hops, uri ∉ scope) →
      resolver.resolveInScope node scope = resolver.resolve node) ∧
    ((∃ hops last, resolver.Visits (node, resolver.baseOf node) hops last ∧
        ∃ uri ∈ uris hops, uri ∈ scope) →
      resolver.resolveInScope node scope = none) := by
  constructor
  · intro hnew
    rw [resolve, resolveInScope_eq_follow, resolveInScope_eq_follow]
    ext found
    constructor
    · exact follow_of_lexical hlexical fun _ _ _ _ _ => List.not_mem_nil
    · exact follow_of_lexical hlexical hnew
  · rintro ⟨hops, last, hvisits, uri, huri, hscope⟩
    exact follow_eq_none_of_visits hvisits huri hscope

theorem resolveInScope_of_lexical_anchor :
    let resolver := Resolver.new (.ofDocuments
      [("file:///outer", .object [("node", .object [("$dynamicAnchor", .string "node")])]),
      ("file:///inner", .object
        [("node", .object [("$dynamicAnchor", .string "node")]),
          ("start", .object [("$ref", .string "#node")])])]) "file:///outer"
    let node := Node.detached (.object [("$ref", .string "inner#/start")])
    resolver.resolveInScope node ["file:///outer"] = resolver.resolve node ∧
      (resolver.resolve node).map Node.key? = some (some (1, "/node")) ∧
      resolver.resolveInScope node ["file:///inner#/start"] = none := by
  intro resolver node
  let whole := resolver.trace 2 (node, resolver.baseOf node)
  have htrail := resolver.trail_trace 2 (node, resolver.baseOf node)
  have huris : uris whole.1 = ["file:///inner#/start"] := by decide +kernel
  have hend : ∀ uri beyond, ¬resolver.Links whole.2 uri beyond :=
    not_links_trace (by decide +kernel)
  have hroles : ∀ reference ∈ whole.1.map Prod.fst ++ [whole.2.1],
      ∃ text ∈ ["inner#/start", "#node"], reference.role = .reference text .lexical := by
    decide +kernel
  have hlexical : ∀ hops last, resolver.Visits (node, resolver.baseOf node) hops last →
      ∀ text kind, last.1.role = .reference text kind → kind = .lexical := by
    intro hops last hvisits text kind hrole
    obtain ⟨_, -, hown⟩ := hroles last.1 (hvisits.trail.subset_whole htrail hend).2
    exact (Node.Role.reference.inj (hrole.symm.trans hown)).2
  have hstatic := fun scope => resolveInScope_of_lexical resolver node scope hlexical
  refine ⟨(hstatic _).1 ?_, by decide +kernel, (hstatic _).2 ?_⟩
  · intro hops last hvisits uri huri
    have hown : uri ∈ uris whole.1 := (hvisits.trail.subset_whole htrail hend).1 huri
    rw [huris, List.mem_singleton] at hown
    simp [hown]
  · exact ⟨whole.1, whole.2, ⟨htrail, by simp [huris]⟩, "file:///inner#/start", by simp [huris],
      by simp⟩

end SpecForm.Resolver
