import SpecForm.Proofs.Resolve.Ending

/-!
# Anchors in the scope

A chase that ends with a dynamic reference to an anchor gives the anchor of the
outermost resource on its way that has one: first come the resources that were in
the scope at the start, then those at which the references of the trail were
found, in their order, and last the resource of the dynamic reference itself.
-/

namespace SpecForm

theorem Reference.split_hash (fragment : String) :
    split ("#" ++ fragment) = ("", decodeFragment fragment) := by
  have hsplit : split ("" ++ "#" ++ fragment) = ("", decodeFragment fragment) :=
    split_append (by simp) fragment
  rwa [String.empty_append] at hsplit

namespace Resolver

variable {resolver : Resolver} {last : Node} {text base target anchor : String}
  {scope : List String}

theorem names_hash (resolver : Resolver) (base fragment : String) :
    resolver.Names ("#" ++ fragment) base (resolver.logicalBase base)
      (Reference.decodeFragment fragment) := by
  constructor
  · simp [Reference.split_hash, targetUri?]
  · rw [Reference.split_hash]

theorem names_anchor (resolver : Resolver) (base : String) (h : '%' ∉ anchor.toList) :
    resolver.Names ("#" ++ anchor) base (resolver.logicalBase base) anchor := by
  have hnames := resolver.names_hash base anchor
  rwa [Reference.decodeFragment_eq_self h] at hnames

theorem Names.mapped?_anchor (h : resolver.Names text base target anchor) (hne : anchor ≠ "")
    (hpointer : ¬Json.Pointer.isPointer anchor) (scope : List String) :
    resolver.mapped? text .dynamic base scope =
      (resolver.inScope? anchor scope).or (resolver.store.get? (target ++ "#" ++ anchor)) := by
  simp [h.mapped?, Reference.withFragment, hne, hpointer]

theorem hopInside_anchor (resolver : Resolver) (target : String) (hne : anchor ≠ "")
    (hpointer : ¬Json.Pointer.isPointer anchor) :
    resolver.hopInside target anchor = .missing := by
  cases hdocument : resolver.store.get? target with
  | none => simp [hopInside, hdocument]
  | some document => simp [hopInside, hdocument, hne, hpointer]

theorem Names.move_anchor (h : resolver.Names text base target anchor) (hne : anchor ≠ "")
    (hpointer : ¬Json.Pointer.isPointer anchor) (hrole : last.role = .reference text .dynamic)
    (scope : List String) :
    resolver.move last base scope = .halt (((resolver.inScope? anchor scope).or
      (resolver.store.get? (target ++ "#" ++ anchor))).map last.overlay) := by
  rw [← h.mapped?_anchor hne hpointer]
  cases hheld : resolver.mapped? text .dynamic base scope with
  | some held => exact move_of_mapped hrole hheld
  | none =>
      have hhop : resolver.hop text .dynamic base scope = .missing := by
        rw [h.hop_of_unmapped hheld, hopInside_anchor resolver target hne hpointer]
      simp [move, hrole, hhop]

theorem Names.not_links_anchor (h : resolver.Names text base target anchor) (hne : anchor ≠ "")
    (hpointer : ¬Json.Pointer.isPointer anchor) (hrole : last.role = .reference text .dynamic)
    (uri : String) (beyond : Node × String) : ¬resolver.Links (last, base) uri beyond :=
  not_links_of_halt (h.move_anchor hne hpointer hrole []) uri beyond

/--
Let the references from a node on lead over a trail of any length, with no URI coming
twice or being in the scope already, to a dynamic reference to an anchor.  Then the node
resolves to what is mapped under the anchor at the first URI, of the scope and then of
the trail, that has it; if none has it, under the anchor at the base of the dynamic
reference; and to nothing if that is not mapped either.  Only the notes of the
references on the way are laid over it.
-/
theorem resolveInScope_outermost_anchor (resolver : Resolver) (node last : Node)
    (base anchor : String) (scope : List String) (hops : List (Node × String))
    (htrail : resolver.Trail (node, resolver.baseOf node) hops (last, base))
    (hfresh : Fresh scope hops) (hrole : last.role = .reference ("#" ++ anchor) .dynamic)
    (hne : anchor ≠ "") (hpercent : '%' ∉ anchor.toList)
    (hpointer : ¬Json.Pointer.isPointer anchor) :
    resolver.resolveInScope node scope =
      (((scope ++ uris hops).findSome? fun uri =>
          resolver.store.get? (Reference.withoutFragment uri ++ "#" ++ anchor)).or
        (resolver.store.get? (resolver.logicalBase base ++ "#" ++ anchor))).map
          fun target => overlays hops (last.overlay target) := by
  have hhalt : resolver.move last base (scope ++ uris hops) =
      .halt (((resolver.inScope? anchor (scope ++ uris hops)).or
        (resolver.store.get? (resolver.logicalBase base ++ "#" ++ anchor))).map last.overlay) :=
    (names_anchor resolver base hpercent).move_anchor hne hpointer hrole _
  rw [resolveInScope_eq_follow, follow_of_trail htrail hfresh hhalt, Option.map_map]
  rfl

theorem resolveInScope_outermost_anchor_three :
    let resolver := Resolver.new (.ofDocuments
      [("file:///outer", .object
        [("node", .object [("$dynamicAnchor", .string "node")]),
          ("start", .object [("$ref", .string "middle#/start")])]),
      ("file:///middle", .object
        [("start", .object [("$ref", .string "inner#/start")])]),
      ("file:///inner", .object
        [("node", .object [("$dynamicAnchor", .string "node")]),
          ("start", .object [("$dynamicRef", .string "#node")])])]) "file:///outer"
    let node := Node.detached (.object [("$ref", .string "outer#/start")])
    ∃ hops last base, resolver.Trail (node, resolver.baseOf node) hops (last, base) ∧
      uris hops = ["file:///outer#/start", "file:///middle#/start", "file:///inner#/start"] ∧
      last.role = .reference ("#" ++ "node") .dynamic ∧
      (resolver.resolve node).map (fun found => (found.document.retrievalUri, found.pointer)) =
        some ("file:///outer", "/node") := by
  intro resolver node
  have hrun : (uris (resolver.trace 3 (node, resolver.baseOf node)).1,
      (resolver.trace 3 (node, resolver.baseOf node)).2.1.role) =
      (["file:///outer#/start", "file:///middle#/start", "file:///inner#/start"],
        .reference ("#" ++ "node") .dynamic) := by
    decide +kernel
  obtain ⟨huris, hrole⟩ := Prod.mk.inj hrun
  have htrail := resolver.trail_trace 3 (node, resolver.baseOf node)
  have hfresh : Fresh [] (resolver.trace 3 (node, resolver.baseOf node)).1 := by
    simp [Fresh, huris]
  refine ⟨_, _, _, htrail, huris, hrole, ?_⟩
  rw [resolve, resolveInScope_outermost_anchor resolver node _ _ "node" [] _ htrail hfresh hrole
    (by decide) (by decide) (by decide), huris]
  decide +kernel

end Resolver

end SpecForm
