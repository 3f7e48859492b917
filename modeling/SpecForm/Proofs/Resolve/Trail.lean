import SpecForm.Proofs.Resolve.Chase

/-!
# The trail of a chase

A chase goes from one reference to the next over links: a pointer leads to a
node that is a reference again.  The references that it passes and the URIs at
which it finds the next ones make up its trail.  What the resolver returns is
described by the trail: it is what the last reference names, with the notes of
all references on the way laid over it.
-/

namespace SpecForm

theorem Json.Pointer.isEmpty_of_isPointer {fragment : String}
    (h : Json.Pointer.isPointer fragment) : fragment.isEmpty = false := by
  by_contra hne
  rw [Bool.not_eq_false, String.isEmpty_iff] at hne
  simp [hne, Json.Pointer.isPointer] at h

theorem Reference.withFragment_of_isPointer {fragment : String}
    (h : Json.Pointer.isPointer fragment) (target : String) :
    withFragment target fragment = target ++ "#" ++ fragment := by
  simp [withFragment, Json.Pointer.isEmpty_of_isPointer h]

namespace Resolver

/-! ## Links -/

/-- A node that is read against a base refers to a further reference: nothing is mapped
under the whole URI, but from what is mapped under the URI without its fragment a
pointer leads to the other node. -/
inductive Links (resolver : Resolver) : Node × String → String → Node × String → Prop where
  | intro {node document found : Node} {base text target : String} {kind : Node.RefKind} :
      node.role = .reference text kind →
      resolver.targetUri? (Reference.split text).1 base = some target →
      Json.Pointer.isPointer (Reference.split text).2 →
      resolver.store.get? (target ++ "#" ++ (Reference.split text).2) = none →
      resolver.store.get? target = some document →
      document.follow? (Json.Pointer.tokens (Reference.split text).2) = some found →
      found.isReference →
      Links resolver (node, base) (target ++ "#" ++ (Reference.split text).2)
        (found, (resolver.store.provenance? found).elim target Provenance.base)

section

variable {resolver : Resolver} {place beyond last : Node × String} {uri : String}

theorem links_of_leads (h : resolver.Leads place uri beyond) :
    resolver.Links place uri beyond := by
  obtain ⟨node, base⟩ := place
  obtain ⟨found, next⟩ := beyond
  obtain ⟨text, kind, hrole, hhop⟩ := move_of_onward h
  obtain ⟨target, htarget, hmissed, hinside⟩ := hop_eq_onward_iff.mp hhop
  obtain ⟨rfl, -, hshape, -⟩ := of_hopInside_eq_onward hinside
  unfold hopInside at hinside
  cases hdocument : resolver.store.get? target with
  | none => simp [hdocument] at hinside
  | some document =>
      -- Without a fragment the document itself would have been mapped.
      have hpointer : Json.Pointer.isPointer (Reference.split text).2 := by
        rcases hshape with hempty | hpointer
        · simp [Reference.withFragment, hempty, hdocument] at hmissed
        · exact hpointer
      simp only [hdocument, Json.Pointer.isEmpty_of_isPointer hpointer, hpointer, if_true,
        Bool.false_eq_true, if_false] at hinside
      cases hfollow : document.follow? (Json.Pointer.tokens (Reference.split text).2) with
      | none => simp [hfollow] at hinside
      | some other =>
          simp only [hfollow] at hinside
          split at hinside
          · rename_i hreference
            simp only [Hop.onward.injEq, true_and] at hinside
            obtain ⟨rfl, rfl⟩ := hinside
            rw [Reference.withFragment_of_isPointer hpointer] at hmissed ⊢
            exact .intro hrole htarget hpointer hmissed hdocument hfollow hreference
          · cases hinside

theorem Links.leads (h : resolver.Links place uri beyond) : resolver.Leads place uri beyond := by
  cases h with
  | @intro node document found base text target kind hrole htarget hpointer hmissed hdocument
      hfollow hreference =>
      have hhop : resolver.hop text kind base [] =
          .onward (target ++ "#" ++ (Reference.split text).2) found
            ((resolver.store.provenance? found).elim target Provenance.base) := by
        refine hop_eq_onward_iff.mpr ⟨target, htarget, ?_, ?_⟩
        · rw [Reference.withFragment_of_isPointer hpointer, hmissed]
        · simp [hopInside, hdocument, Json.Pointer.isEmpty_of_isPointer hpointer, hpointer,
            hfollow, hreference, Reference.withFragment_of_isPointer hpointer]
      simp [Leads, move, hrole, hhop]

theorem Links.move (h : resolver.Links place uri beyond) (scope : List String) :
    resolver.move place.1 place.2 scope = .onward uri beyond.1 beyond.2 :=
  move_onward_in h.leads scope

theorem Links.unique {other : String} {further : Node × String}
    (h : resolver.Links place uri beyond) (h' : resolver.Links place other further) :
    uri = other ∧ beyond = further := by
  have hmove := h.leads.symm.trans h'.leads
  rw [Move.onward.injEq] at hmove
  exact ⟨hmove.1, Prod.ext_iff.mpr hmove.2⟩

theorem Links.beyond_unique {place' further : Node × String}
    (h : resolver.Links place uri beyond) (h' : resolver.Links place' uri further) :
    beyond = further :=
  Prod.ext_iff.mpr (move_unique h.leads h'.leads)

theorem not_links_of_halt {scope : List String} {target : Option Node}
    (h : resolver.move place.1 place.2 scope = .halt target) (uri : String)
    (beyond : Node × String) : ¬resolver.Links place uri beyond := by
  intro hlinks
  rw [hlinks.move] at h
  cases h

/-! ## Trails -/

/-- From one place a chase comes to another; every hop is the reference that it passes,
with the URI at which the next one is found. -/
inductive Trail (resolver : Resolver) :
    Node × String → List (Node × String) → Node × String → Prop where
  | nil (place : Node × String) : Trail resolver place [] place
  | cons {place beyond last : Node × String} {uri : String} {hops : List (Node × String)} :
      resolver.Links place uri beyond → Trail resolver beyond hops last →
      Trail resolver place ((place.1, uri) :: hops) last

def uris (hops : List (Node × String)) : List String := hops.map Prod.snd

/-- The notes of the references that were passed, laid over what the last one names. -/
def overlays (hops : List (Node × String)) (target : Node) : Node :=
  hops.foldr (fun hop target => hop.1.overlay target) target

def Fresh (scope : List String) (hops : List (Node × String)) : Prop :=
  (uris hops).Nodup ∧ ∀ uri ∈ uris hops, uri ∉ scope

variable {hops hops' : List (Node × String)} {scope : List String}

@[simp] theorem uris_nil : uris [] = [] := rfl

@[simp] theorem uris_cons (hop : Node × String) (hops : List (Node × String)) :
    uris (hop :: hops) = hop.2 :: uris hops := rfl

theorem fresh_nil (scope : List String) : Fresh scope [] := by
  simp [Fresh]

theorem fresh_cons {hop : Node × String} :
    Fresh scope (hop :: hops) ↔ hop.2 ∉ scope ∧ Fresh (scope ++ [hop.2]) hops := by
  simp only [Fresh, uris_cons, List.nodup_cons, List.mem_cons, forall_eq_or_imp, List.mem_append,
    List.not_mem_nil, or_false, not_or]
  constructor
  · rintro ⟨⟨hown, hnodup⟩, hscope, hrest⟩
    refine ⟨hscope, hnodup, fun uri huri => ⟨hrest uri huri, ?_⟩⟩
    rintro rfl
    exact hown huri
  · rintro ⟨hscope, hnodup, hrest⟩
    exact ⟨⟨fun hown => (hrest _ hown).2 rfl, hnodup⟩, hscope, fun uri huri => (hrest uri huri).1⟩

namespace Trail

/-- A chase has no choice: where it cannot go on tells the way there. -/
theorem unique {last' : Node × String} (h : resolver.Trail place hops last)
    (h' : resolver.Trail place hops' last') (hend : ∀ uri beyond, ¬resolver.Links last uri beyond)
    (hend' : ∀ uri beyond, ¬resolver.Links last' uri beyond) : hops = hops' ∧ last = last' := by
  induction h generalizing hops' last' with
  | nil place =>
      cases h' with
      | nil => exact ⟨rfl, rfl⟩
      | cons hlinks _ => exact absurd hlinks (hend _ _)
  | cons hlinks _ ih =>
      cases h' with
      | nil => exact absurd hlinks (hend' _ _)
      | cons hlinks' hrest' =>
          obtain ⟨rfl, rfl⟩ := hlinks.unique hlinks'
          obtain ⟨rfl, rfl⟩ := ih hrest' hend hend'
          exact ⟨rfl, rfl⟩

theorem exists_rest (h : resolver.Trail place hops last) (huri : uri ∈ uris hops) :
    ∃ before beyond rest, resolver.Links before uri beyond ∧ resolver.Trail beyond rest last ∧
      rest.length < hops.length := by
  induction h with
  | nil place => simp at huri
  | @cons place beyond last head hops hlinks hrest ih =>
      rw [uris_cons, List.mem_cons] at huri
      rcases huri with rfl | hlater
      · exact ⟨place, beyond, hops, hlinks, hrest, by simp⟩
      · obtain ⟨before, later, rest, hlinks', hrest', hlength⟩ := ih hlater
        exact ⟨before, later, rest, hlinks', hrest', by simp; omega⟩

/-- A chase that ends does not come back to where it was. -/
theorem uri_notMem (h : resolver.Trail beyond hops last)
    (hend : ∀ uri beyond, ¬resolver.Links last uri beyond)
    (hlinks : resolver.Links place uri beyond) : uri ∉ uris hops := by
  intro hagain
  obtain ⟨before, later, rest, hlinks', hrest, hlength⟩ := h.exists_rest hagain
  obtain rfl := hlinks.beyond_unique hlinks'
  obtain ⟨rfl, -⟩ := h.unique hrest hend hend
  exact Nat.lt_irrefl _ hlength

theorem nodup_uris (h : resolver.Trail place hops last)
    (hend : ∀ uri beyond, ¬resolver.Links last uri beyond) : (uris hops).Nodup := by
  induction h with
  | nil place => exact List.nodup_nil
  | cons hlinks hrest ih =>
      rw [uris_cons, List.nodup_cons]
      exact ⟨hrest.uri_notMem hend hlinks, ih hend⟩

end Trail

/-- The trail from a place as far as it goes in so many hops, and where it comes to. -/
def trace (resolver : Resolver) : Nat → Node × String → List (Node × String) × (Node × String)
  | 0, place => ([], place)
  | more + 1, place =>
      match resolver.move place.1 place.2 [] with
      | .halt _ => ([], place)
      | .onward uri found next =>
          let (hops, last) := trace resolver more (found, next)
          ((place.1, uri) :: hops, last)

theorem trail_trace (resolver : Resolver) (more : Nat) (place : Node × String) :
    resolver.Trail place (resolver.trace more place).1 (resolver.trace more place).2 := by
  induction more generalizing place with
  | zero => exact .nil place
  | succ more ih =>
      rw [trace]
      cases hmove : resolver.move place.1 place.2 [] with
      | halt _ => exact .nil place
      | onward uri found next =>
          have hleads : resolver.Leads place uri (found, next) := hmove
          exact .cons (links_of_leads hleads) (ih (found, next))

/-! ## What the resolver returns -/

variable {target : Option Node} {moves : Nat}

theorem walk_of_trail (h : resolver.Trail place hops last) (hfresh : Fresh scope hops)
    (hhalt : resolver.move last.1 last.2 (scope ++ uris hops) = .halt target) :
    resolver.walk true (hops.length + 1) place.1 place.2 scope =
      some (.ended (target.map (overlays hops))) := by
  induction h generalizing scope with
  | nil place =>
      rw [uris_nil, List.append_nil] at hhalt
      rw [List.length_nil, walk_of_halt hhalt]
      cases target <;> rfl
  | @cons place beyond last uri hops hlinks _ ih =>
      obtain ⟨hnew, hrest⟩ := fresh_cons.mp hfresh
      have hnext : resolver.walk true (hops.length + 1) beyond.1 beyond.2 (scope ++ [uri]) =
          some (.ended (target.map (overlays hops))) := by
        apply ih hrest
        simpa using hhalt
      have hpassed : (scope.contains uri) = false := by simpa using hnew
      rw [List.length_cons, walk_of_onward (hlinks.move scope), hnext, hpassed]
      simp only [Bool.and_false, Bool.false_eq_true, if_false, Option.map_some, Outcome.overlay,
        Option.map_map]
      rfl

theorem exists_trail_of_walk {node : Node} {base : String}
    (h : resolver.walk true moves node base scope = some (.ended target)) :
    ∃ hops last result, resolver.Trail (node, base) hops last ∧ Fresh scope hops ∧
      resolver.move last.1 last.2 (scope ++ uris hops) = .halt result ∧
      target = result.map (overlays hops) := by
  induction moves generalizing node base scope target with
  | zero => simp [walk] at h
  | succ moves ih =>
      cases hmove : resolver.move node base scope with
      | halt result =>
          rw [walk_of_halt hmove, Option.some.injEq, Outcome.ended.injEq] at h
          refine ⟨[], (node, base), result, .nil _, fresh_nil scope, ?_, ?_⟩
          · simpa using hmove
          · rw [← h]
            cases result <;> rfl
      | onward uri found next =>
          rw [walk_of_onward hmove, Bool.true_and] at h
          split at h
          · cases h
          · rename_i hnew
            obtain ⟨outcome, hrest, houtcome⟩ := Option.map_eq_some_iff.mp h
            cases outcome with
            | circular => cases houtcome
            | ended result =>
                rw [Outcome.overlay, Outcome.ended.injEq] at houtcome
                obtain ⟨hops, last, named, htrail, hfresh, hhalt, rfl⟩ := ih hrest
                have hlinks : resolver.Links (node, base) uri (found, next) :=
                  links_of_leads (move_onward_in hmove [])
                refine ⟨(node, uri) :: hops, last, named, .cons hlinks htrail, ?_, ?_, ?_⟩
                · exact fresh_cons.mpr ⟨by simpa using hnew, hfresh⟩
                · simpa using hhalt
                · rw [← houtcome]
                  cases named <;> rfl

theorem follow_of_trail (h : resolver.Trail place hops last) (hfresh : Fresh scope hops)
    (hhalt : resolver.move last.1 last.2 (scope ++ uris hops) = .halt target) :
    resolver.follow resolver.limit place.1 place.2 scope = target.map (overlays hops) := by
  obtain ⟨outcome, hwalk⟩ := resolver.exists_walk place.1 place.2 scope
  obtain rfl := walk_unique hwalk (walk_of_trail h hfresh hhalt)
  rw [follow_eq_node? hwalk (Nat.le_refl _), Outcome.node?]

theorem follow_eq_some_iff {node found : Node} {base : String} :
    resolver.follow resolver.limit node base scope = some found ↔
      ∃ hops last target, resolver.Trail (node, base) hops last ∧ Fresh scope hops ∧
        resolver.move last.1 last.2 (scope ++ uris hops) = .halt (some target) ∧
        found = overlays hops target := by
  constructor
  · intro h
    obtain ⟨outcome, hwalk⟩ := resolver.exists_walk node base scope
    rw [follow_eq_node? hwalk (Nat.le_refl _)] at h
    cases outcome with
    | circular => cases h
    | ended result =>
        rw [Outcome.node?] at h
        obtain ⟨hops, last, target, htrail, hfresh, hhalt, rfl⟩ := exists_trail_of_walk hwalk
        obtain ⟨target, rfl, rfl⟩ := Option.map_eq_some_iff.mp h
        exact ⟨hops, last, target, htrail, hfresh, hhalt, rfl⟩
  · rintro ⟨hops, last, target, htrail, hfresh, hhalt, rfl⟩
    exact follow_of_trail htrail hfresh hhalt

theorem follow_of_links (h : resolver.Links place uri beyond) (hnew : uri ∉ scope) :
    resolver.follow resolver.limit place.1 place.2 scope =
      (resolver.follow resolver.limit beyond.1 beyond.2 (scope ++ [uri])).map place.1.overlay := by
  ext found
  rw [Option.map_eq_some_iff, follow_eq_some_iff]
  constructor
  · rintro ⟨hops, last, target, htrail, hfresh, hhalt, rfl⟩
    cases htrail with
    | nil => exact absurd h (not_links_of_halt hhalt _ _)
    | @cons _ _ _ _ hops hfirst hrest =>
        obtain ⟨rfl, rfl⟩ := h.unique hfirst
        refine ⟨overlays hops target, follow_eq_some_iff.mpr ?_, rfl⟩
        exact ⟨hops, last, target, hrest, (fresh_cons.mp hfresh).2, by simpa using hhalt, rfl⟩
  · rintro ⟨held, hheld, rfl⟩
    obtain ⟨hops, last, target, hrest, hfresh, hhalt, rfl⟩ := follow_eq_some_iff.mp hheld
    exact ⟨_, last, target, .cons h hrest, fresh_cons.mpr ⟨hnew, hfresh⟩, by simpa using hhalt, rfl⟩

theorem follow_of_mem (h : resolver.Links place uri beyond) (hold : uri ∈ scope) :
    resolver.follow resolver.limit place.1 place.2 scope = none := by
  rw [follow_of_onward (h.move scope), List.contains_iff_mem.mpr hold, if_pos rfl]

theorem follow_of_follow {scope' : List String} {found : Node}
    (h : resolver.follow resolver.limit place.1 place.2 scope = some found)
    (halike : ∀ hops last, resolver.Trail place hops last →
      (∀ uri beyond, ¬resolver.Links last uri beyond) → Fresh scope hops →
      Fresh scope' hops ∧ resolver.move last.1 last.2 (scope ++ uris hops) =
        resolver.move last.1 last.2 (scope' ++ uris hops)) :
    resolver.follow resolver.limit place.1 place.2 scope' = some found := by
  obtain ⟨hops, last, target, htrail, hfresh, hhalt, rfl⟩ := follow_eq_some_iff.mp h
  obtain ⟨hfresh', hmove⟩ := halike hops last htrail (not_links_of_halt hhalt) hfresh
  exact follow_of_trail htrail hfresh' (hmove.symm.trans hhalt)

end

end Resolver

end SpecForm
