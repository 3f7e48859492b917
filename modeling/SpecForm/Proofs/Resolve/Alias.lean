import SpecForm.Proofs.Resolve.DynamicScope
import SpecForm.Proofs.Store.Indexing
import SpecForm.Proofs.Uri.Normal

/-!
# Two URIs of one document

A document is mapped under the URI it was read from and under the one it gives
itself, but what is inside it is mapped under the second alone.  A pointer leads to
the same node from both, and the chase goes on from there alike, apart from the URI
that it leaves in the scope.
-/

namespace SpecForm

/-! ## References on their own -/

namespace Node

def ofReference (text : String) : Node := .detached (.object [("$dynamicRef", .string text)])

@[simp] theorem role_ofReference (text : String) :
    (ofReference text).role = .reference text .dynamic := rfl

@[simp] theorem overlay_ofReference (text : String) (target : Node) :
    (ofReference text).overlay target = target := rfl

end Node

namespace Resolver

variable {resolver : Resolver} {text text' base base' target target' fragment : String}
  {scope : List String}

theorem resolveReference_eq_follow (resolver : Resolver) (text base : String)
    (scope : List String) :
    resolver.resolveReference text base scope =
      resolver.follow resolver.limit (.ofReference text) base scope := by
  rw [follow, Node.role_ofReference]
  dsimp only
  rw [resolveReference]
  cases resolver.chase resolver.limit text .dynamic base scope <;> rfl

theorem targetUri?_of_isNormal {uri : String} (h : Uri.IsNormal uri) (hhash : '#' ∉ uri.toList)
    (base : String) : resolver.targetUri? uri base = some uri := by
  have hne : uri.isEmpty = false := by
    by_contra hempty
    rw [Bool.not_eq_false, String.isEmpty_iff] at hempty
    rw [hempty] at h
    revert h
    decide
  simp [targetUri?, hne, Uri.resolve?_of_isNormal h, Reference.withoutFragment_eq_self hhash]

theorem names_of_isNormal {uri : String} (h : Uri.IsNormal uri) (hhash : '#' ∉ uri.toList)
    (fragment base : String) :
    resolver.Names (uri ++ "#" ++ fragment) base uri (Reference.decodeFragment fragment) := by
  constructor
  · rw [Reference.split_append hhash]
    exact targetUri?_of_isNormal h hhash base
  · rw [Reference.split_append hhash]

theorem names_self {uri : String} (h : Uri.IsNormal uri) (hhash : '#' ∉ uri.toList)
    (base : String) : resolver.Names uri base uri "" := by
  have hsplit : Reference.split uri = (uri, "") := Reference.split_eq_self hhash
  constructor
  · rw [hsplit]
    exact targetUri?_of_isNormal h hhash base
  · rw [hsplit]

theorem resolveReference_of_mapped {held : Node}
    (h : resolver.mapped? text .dynamic base scope = some held) :
    resolver.resolveReference text base scope = some held := by
  rw [resolveReference_eq_follow,
    follow_of_halt (move_of_mapped (Node.role_ofReference text) h), Node.overlay_ofReference]

namespace Names

theorem resolveReference_whole {document : Node} (h : resolver.Names text base target "")
    (hdocument : resolver.store.get? target = some document) (scope : List String) :
    resolver.resolveReference text base scope = some document := by
  apply resolveReference_of_mapped
  rw [h.mapped?]
  exact hdocument

theorem resolveReference_anchor (h : resolver.Names text base target fragment)
    (hne : fragment ≠ "") (hpointer : ¬Json.Pointer.isPointer fragment) (scope : List String) :
    resolver.resolveReference text base scope =
      (resolver.inScope? fragment scope).or
        (resolver.store.get? (target ++ "#" ++ fragment)) := by
  rw [resolveReference_eq_follow,
    follow_of_halt (h.move_anchor hne hpointer (Node.role_ofReference text) scope)]
  exact Option.map_id'

theorem mapped?_pointer (h : resolver.Names text base target fragment)
    (hpointer : Json.Pointer.isPointer fragment) (scope : List String) :
    resolver.mapped? text .dynamic base scope =
      resolver.store.get? (target ++ "#" ++ fragment) := by
  rw [h.mapped?_of_not_anchor (by simp [hpointer]), Reference.withFragment_of_isPointer hpointer]

theorem hop_pointer {document : Node} (h : resolver.Names text base target fragment)
    (hpointer : Json.Pointer.isPointer fragment)
    (hunmapped : resolver.store.get? (target ++ "#" ++ fragment) = none)
    (hdocument : resolver.store.get? target = some document) (scope : List String) :
    resolver.hop text .dynamic base scope =
      (document.follow? (Json.Pointer.tokens fragment)).elim .missing fun node =>
        if node.isReference then
          .onward (target ++ "#" ++ fragment) node
            ((resolver.store.provenance? node).elim target Provenance.base)
        else .found node := by
  rw [h.hop_of_unmapped (by rw [h.mapped?_pointer hpointer, hunmapped])]
  simp only [hopInside, hdocument, Json.Pointer.isEmpty_of_isPointer hpointer, hpointer, if_true,
    Bool.false_eq_true, if_false, Reference.withFragment_of_isPointer hpointer]
  cases document.follow? (Json.Pointer.tokens fragment) <;> rfl

theorem links {document node : Node} {provenance : Provenance}
    (h : resolver.Names text base target fragment) (hpointer : Json.Pointer.isPointer fragment)
    (hunmapped : resolver.store.get? (target ++ "#" ++ fragment) = none)
    (hdocument : resolver.store.get? target = some document)
    (hnode : document.follow? (Json.Pointer.tokens fragment) = some node)
    (hreference : node.isReference)
    (hprovenance : resolver.store.provenance? node = some provenance) :
    resolver.Links (.ofReference text, base) (target ++ "#" ++ fragment)
      (node, provenance.base) := by
  obtain ⟨htarget, rfl⟩ := h
  have hlinks := Links.intro (Node.role_ofReference text) htarget hpointer hunmapped hdocument
    hnode hreference
  rwa [hprovenance] at hlinks

end Names

/-! ## One URI for another -/

variable {place place' beyond : Node × String} {uri uri' : String}

theorem move_congr {node : Node} {scope scope' : List String}
    (h : ∀ text kind, node.role = .reference text kind →
      resolver.mapped? text kind base scope = resolver.mapped? text kind base scope') :
    resolver.move node base scope = resolver.move node base scope' := by
  unfold move
  cases hrole : node.role with
  | plain => rfl
  | broken => rfl
  | reference text kind => simp only [hop_eq, h text kind hrole]

/-- Two scopes come apart over a dynamic reference to an anchor only. -/
theorem move_congr_of_anchor {node : Node} {scope scope' : List String}
    (h : ∀ text target anchor, node.role = .reference text .dynamic →
      resolver.Names text base target anchor → anchor ≠ "" → ¬Json.Pointer.isPointer anchor →
      resolver.mapped? text .dynamic base scope = resolver.mapped? text .dynamic base scope') :
    resolver.move node base scope = resolver.move node base scope' := by
  apply move_congr
  intro text kind hrole
  cases htarget : resolver.targetUri? (Reference.split text).1 base with
  | none => simp [mapped?, htarget]
  | some target =>
      have hnames : resolver.Names text base target (Reference.split text).2 := ⟨htarget, rfl⟩
      by_cases hanchor : kind = .dynamic ∧ (Reference.split text).2 ≠ "" ∧
          ¬Json.Pointer.isPointer (Reference.split text).2
      · obtain ⟨rfl, hne, hpointer⟩ := hanchor
        exact h text target _ hrole hnames hne hpointer
      · rw [hnames.mapped?_of_not_anchor hanchor, hnames.mapped?_of_not_anchor hanchor]

theorem inScope?_append (resolver : Resolver) (anchor : String) (scope later : List String) :
    resolver.inScope? anchor (scope ++ later) =
      (resolver.inScope? anchor scope).or (resolver.inScope? anchor later) := by
  simp [inScope?, List.findSome?_append]

theorem inScope?_cons (resolver : Resolver) (anchor uri : String) (later : List String) :
    resolver.inScope? anchor (uri :: later) =
      (resolver.store.get? (Reference.withoutFragment uri ++ "#" ++ anchor)).or
        (resolver.inScope? anchor later) := by
  rw [inScope?, List.findSome?_cons]
  cases resolver.store.get? (Reference.withoutFragment uri ++ "#" ++ anchor) <;> rfl

theorem Names.mapped?_passed {anchor : String} (h : resolver.Names text base target anchor)
    (hne : anchor ≠ "") (hpointer : ¬Json.Pointer.isPointer anchor) (huri : '#' ∉ uri.toList)
    (fragment : String) (scope later : List String) :
    resolver.mapped? text .dynamic base (scope ++ (uri ++ "#" ++ fragment) :: later) =
      (resolver.inScope? anchor scope).or ((resolver.store.get? (uri ++ "#" ++ anchor)).or
        (resolver.mapped? text .dynamic base later)) := by
  rw [h.mapped?_anchor hne hpointer, h.mapped?_anchor hne hpointer, inScope?_append,
    inScope?_cons, Reference.withoutFragment_append huri]
  simp only [Option.or_assoc]

theorem follow_alike {found : Node} (hlinks : resolver.Links place uri beyond)
    (hlinks' : resolver.Links place' uri' beyond) (hnotes : place.1.overlay = place'.1.overlay)
    (hpassed : uri' ∈ scope → uri ∈ scope)
    (halike : ∀ hops last, resolver.Trail beyond hops last →
      resolver.move last.1 last.2 (scope ++ uri :: uris hops) =
        resolver.move last.1 last.2 (scope ++ uri' :: uris hops))
    (h : resolver.follow resolver.limit place.1 place.2 scope = some found) :
    resolver.follow resolver.limit place'.1 place'.2 scope = some found := by
  have hnew : uri ∉ scope := by
    intro hold
    rw [follow_of_mem hlinks hold] at h
    cases h
  rw [follow_of_links hlinks hnew] at h
  obtain ⟨held, hheld, rfl⟩ := Option.map_eq_some_iff.mp h
  have hheld' : resolver.follow resolver.limit beyond.1 beyond.2 (scope ++ [uri']) = some held := by
    refine follow_of_follow hheld fun hops last htrail hend hfresh => ⟨⟨hfresh.1, ?_⟩, ?_⟩
    · -- The other URI leads to where this one does, so a chase that ends does not pass it.
      intro other hother hpast
      rcases List.mem_append.mp hpast with hold | hown
      · exact hfresh.2 other hother (List.mem_append_left _ hold)
      · obtain rfl := List.mem_singleton.mp hown
        exact htrail.uri_notMem hend hlinks' hother
    · simpa using halike hops last htrail
  rw [follow_of_links hlinks' fun hold => hnew (hpassed hold), hheld', hnotes]
  rfl

/-- Where a chase from the place can come to a dynamic reference whose anchor the scope does
not have, it makes no difference which of the two resources comes next. -/
def Indifferent (resolver : Resolver) (scope : List String) (uri uri' : String)
    (place : Node × String) : Prop :=
  ∀ (hops : List (Node × String)) (last : Node) (base text : String),
    resolver.Trail place hops (last, base) → last.role = .reference text .dynamic →
    let anchor := (Reference.split text).2
    anchor ≠ "" → ¬Json.Pointer.isPointer anchor → resolver.inScope? anchor scope = none →
      (resolver.store.get? (uri ++ "#" ++ anchor)).or
          (resolver.mapped? text .dynamic base (uris hops)) =
        (resolver.store.get? (uri' ++ "#" ++ anchor)).or
          (resolver.mapped? text .dynamic base (uris hops))

theorem Indifferent.move_eq {hops : List (Node × String)} {last : Node × String}
    (h : resolver.Indifferent scope uri uri' place) (huri : '#' ∉ uri.toList)
    (huri' : '#' ∉ uri'.toList) (fragment : String) (htrail : resolver.Trail place hops last) :
    resolver.move last.1 last.2 (scope ++ (uri ++ "#" ++ fragment) :: uris hops) =
      resolver.move last.1 last.2 (scope ++ (uri' ++ "#" ++ fragment) :: uris hops) := by
  apply move_congr_of_anchor
  intro text target anchor hrole hnames hne hpointer
  rw [hnames.mapped?_passed hne hpointer huri, hnames.mapped?_passed hne hpointer huri']
  cases hscope : resolver.inScope? anchor scope with
  | some held => rfl
  | none =>
      obtain rfl := hnames.fragment
      rw [h hops last.1 last.2 text htrail hrole hne hpointer hscope]

theorem resolveReference_congr
    (h : resolver.hop text .dynamic base scope = resolver.hop text' .dynamic base' scope) :
    resolver.resolveReference text base scope = resolver.resolveReference text' base' scope := by
  rw [resolveReference, resolveReference, chase.eq_def, chase.eq_def, h]

theorem Names.resolveReference_pointer {document : Node}
    (h : resolver.Names text base target fragment)
    (h' : resolver.Names text' base' target' fragment)
    (hpointer : Json.Pointer.isPointer fragment)
    (htarget : resolver.store.get? target = some document)
    (htarget' : resolver.store.get? target' = some document)
    (hkeys : resolver.store.get? (target ++ "#" ++ fragment) =
      resolver.store.get? (target' ++ "#" ++ fragment))
    (hreference : ∀ node, document.follow? (Json.Pointer.tokens fragment) = some node →
      node.isReference → ∃ provenance, resolver.store.provenance? node = some provenance ∧
        (target ++ "#" ++ fragment ∈ scope ↔ target' ++ "#" ++ fragment ∈ scope) ∧
        resolver.Indifferent scope target target' (node, provenance.base)) :
    resolver.resolveReference text base scope = resolver.resolveReference text' base' scope := by
  cases hheld : resolver.store.get? (target ++ "#" ++ fragment) with
  | some held =>
      have hmapped := h.mapped?_pointer hpointer scope
      have hmapped' := h'.mapped?_pointer hpointer scope
      rw [hheld] at hmapped
      rw [← hkeys, hheld] at hmapped'
      rw [resolveReference_of_mapped hmapped, resolveReference_of_mapped hmapped']
  | none =>
      have hheld' := hkeys.symm.trans hheld
      by_cases honward : ∃ node, document.follow? (Json.Pointer.tokens fragment) = some node ∧
          node.isReference
      · obtain ⟨node, hnode, hisReference⟩ := honward
        obtain ⟨provenance, hprovenance, hpassed, halike⟩ := hreference node hnode hisReference
        have hlinks := h.links hpointer hheld htarget hnode hisReference hprovenance
        have hlinks' := h'.links hpointer hheld' htarget' hnode hisReference hprovenance
        have htarget := hash_notMem_of_targetUri? h.target
        have htarget' := hash_notMem_of_targetUri? h'.target
        rw [resolveReference_eq_follow, resolveReference_eq_follow]
        ext found
        constructor
        · refine follow_alike hlinks hlinks' rfl hpassed.mpr fun hops last htrail => ?_
          exact halike.move_eq htarget htarget' fragment htrail
        · refine follow_alike hlinks' hlinks rfl hpassed.mp fun hops last htrail => ?_
          exact (halike.move_eq htarget htarget' fragment htrail).symm
      · apply resolveReference_congr
        rw [h.hop_pointer hpointer hheld htarget, h'.hop_pointer hpointer hheld' htarget']
        cases hnode : document.follow? (Json.Pointer.tokens fragment) with
        | none => rfl
        | some node =>
            have hplain : node.isReference = false := by
              rw [Bool.eq_false_iff]
              exact fun hisReference => honward ⟨node, hnode, hisReference⟩
            simp [hplain]

/--
Let a document be mapped under the URI it was read from and under the one that it gives
itself, and let both be absolute, in normal form and without a fragment.  Then each of
them names the document.  An anchor means the same under both exactly if the scope has
it or both URIs are mapped alike with it.  A pointer that is mapped alike means the same
under both, except where it leads to a reference and the scope has one of its two URIs
and not the other, or the chase from there can come to an anchor that the one URI, left
in the scope, would redirect and the other would not.
-/
theorem resolveReference_alias (documents : List (String × Json)) (resolver : Resolver)
    (hstore : resolver.store = .ofDocuments documents) (document : Node)
    (hdocument : document ∈ resolver.store.documents) :
    let uri := document.document.retrievalUri
    let logical := Store.logicalUri document uri
    '#' ∉ uri.toList → Uri.IsNormal uri → Uri.IsNormal logical →
    resolver.store.get? logical = some document →
    ∀ (fragment base : String) (scope : List String),
      let name := Reference.decodeFragment fragment
      let byUri := resolver.resolveReference (uri ++ "#" ++ fragment) base scope
      let byLogical := resolver.resolveReference (logical ++ "#" ++ fragment) base scope
      (∀ text ∈ [uri, logical], resolver.resolveReference text base scope = some document) ∧
      (name = "" → byUri = some document ∧ byLogical = some document) ∧
      (name ≠ "" → ¬Json.Pointer.isPointer name →
        (byUri = byLogical ↔ (resolver.inScope? name scope).isSome ∨
          resolver.store.get? (uri ++ "#" ++ name) =
            resolver.store.get? (logical ++ "#" ++ name))) ∧
      (Json.Pointer.isPointer name →
        resolver.store.get? (uri ++ "#" ++ name) = resolver.store.get? (logical ++ "#" ++ name) →
        (∀ node provenance, document.follow? (Json.Pointer.tokens name) = some node →
          node.isReference → resolver.store.provenance? node = some provenance →
          (uri ++ "#" ++ name ∈ scope ↔ logical ++ "#" ++ name ∈ scope) ∧
            resolver.Indifferent scope uri logical (node, provenance.base)) →
        byUri = byLogical) := by
  intro uri logical hhash hnormal hnormal' hlogical fragment base scope name byUri byLogical
  have hhash' : '#' ∉ logical.toList := Store.hash_notMem_logicalUri hhash document
  have huri : resolver.store.get? uri = some document := by
    rw [hstore] at hdocument ⊢
    exact (Store.Orderly.ofDocuments documents).found hdocument
  have hnames : resolver.Names (uri ++ "#" ++ fragment) base uri name :=
    names_of_isNormal hnormal hhash fragment base
  have hnames' : resolver.Names (logical ++ "#" ++ fragment) base logical name :=
    names_of_isNormal hnormal' hhash' fragment base
  refine ⟨?_, ?_, ?_, ?_⟩
  · intro text htext
    rw [List.mem_cons, List.mem_singleton] at htext
    rcases htext with rfl | rfl
    · exact (names_self hnormal hhash base).resolveReference_whole huri scope
    · exact (names_self hnormal' hhash' base).resolveReference_whole hlogical scope
  · intro hempty
    rw [hempty] at hnames hnames'
    exact ⟨hnames.resolveReference_whole huri scope, hnames'.resolveReference_whole hlogical scope⟩
  · intro hne hpointer
    have hby : byUri = _ := hnames.resolveReference_anchor hne hpointer scope
    have hby' : byLogical = _ := hnames'.resolveReference_anchor hne hpointer scope
    rw [hby, hby']
    cases resolver.inScope? name scope <;> simp
  · intro hpointer hkeys hreference
    apply hnames.resolveReference_pointer hnames' hpointer huri hlogical hkeys
    intro node hnode hisReference
    have hobject := Node.isObject_of_isReference hisReference
    have hwithin := Node.within_of_follow? .root hnode hobject
    obtain ⟨own, hown⟩ : ∃ own, resolver.store.provenance? node = some ⟨own, uri⟩ := by
      rw [hstore] at hdocument ⊢
      exact (Store.based_ofDocuments documents).exists_base hdocument hwithin hobject
    exact ⟨_, hown, hreference node _ hnode hisReference hown⟩

theorem resolveReference_alias_dynamic :
    let uri := "file:///pets"
    let logical := "https://x.test/pets"
    let root := Json.object
      [("$self", .string logical),
        ("Pet", .object [("$dynamicAnchor", .string "pet")]),
        ("Any", .object [("$dynamicRef", .string "#pet")])]
    let resolver := Resolver.new (.ofDocuments [(uri, root)]) uri
    resolver.resolveReference (uri ++ "#" ++ "/Any") uri [] =
        resolver.resolveReference (logical ++ "#" ++ "/Any") uri [] ∧
      (resolver.resolveReference (uri ++ "#" ++ "/Any") uri []).map Node.pointer = some "/Pet" := by
  intro uri logical root resolver
  let document := Store.nextRoot .empty uri root
  have hdocument : document ∈ resolver.store.documents :=
    (Store.mem_documents_register rfl).mpr (.inr rfl)
  have hself : Store.logicalUri document uri = logical := by decide +kernel
  have hlogical : resolver.store.get? (Store.logicalUri document uri) = some document := by
    refine (Store.get?_register rfl root _).trans ?_
    rw [List.lookup_cons, List.lookup_cons, hself]
    rfl
  have hunmapped : ∀ key ∈ [uri ++ "#" ++ "/Any", logical ++ "#" ++ "/Any", uri ++ "#" ++ "pet"],
      resolver.store.get? key = none := by
    simp only [← Option.isNone_iff_eq_none]
    decide +kernel
  have hnames : resolver.Names "#pet" logical logical "pet" := by
    constructor <;> decide +kernel
  have hrole : (document.step "Any").role = .reference "#pet" .dynamic := by decide +kernel
  have hend := hnames.not_links_anchor (by decide) (by decide) hrole
  have hown : resolver.store.provenance? (document.step "Any") = some ⟨logical, uri⟩ := by
    decide +kernel
  have hstep : document.follow? ["Any"] = some (document.step "Any") := by
    have hvalue : document.value = root := rfl
    simp [Node.follow?, Node.child?, Node.member?, Node.has, hvalue, root, Json.member?,
      List.lookup_cons]
  have htokens : Json.Pointer.tokens "/Any" = ["Any"] := by decide +kernel
  have hname : Reference.decodeFragment "/Any" = "/Any" := by decide +kernel
  obtain ⟨-, -, -, hpointer⟩ := resolveReference_alias _ resolver rfl document hdocument
    (by decide) (by decide +kernel) (hself ▸ by decide +kernel) hlogical "/Any" uri []
  have huri : document.document.retrievalUri = uri := rfl
  rw [huri, hself, hname] at hpointer
  constructor
  · refine hpointer (by decide) ?_ ?_
    · rw [hunmapped _ (by simp), hunmapped _ (by simp)]
    · intro node provenance hnode _ hprovenance
      obtain rfl : document.step "Any" = node := by
        rw [htokens, hstep] at hnode
        exact Option.some.inj hnode
      obtain rfl : ⟨logical, uri⟩ = provenance := by
        rwa [hown, Option.some.injEq] at hprovenance
      refine ⟨by simp, ?_⟩
      intro hops last base text htrail hlast anchor _ _ _
      cases htrail with
      | nil =>
          obtain ⟨rfl, -⟩ := Node.Role.reference.inj (hrole.symm.trans hlast)
          have hanchor : anchor = "pet" := by decide +kernel
          rw [hanchor, hunmapped _ (by simp), uris_nil,
            hnames.mapped?_anchor (by decide) (by decide)]
          simp [inScope?]
      | cons hlinks _ => exact absurd hlinks (hend _ _)
  · decide +kernel

/-- The two URIs of a document come apart over an anchor, over the scope, over a dynamic
reference in another document, over an identifier with a pointer in it, and where one of
them is not in normal form. -/
theorem exists_alias_disagreement :
    let logical := "https://x.test/pets"
    ∀ entry ∈ ([
      ("file:///pets", [("Pet", .object [("$anchor", .string "pet")])], [], "pet", []),
      ("file:///pets", [("Any", .object [("$ref", .string "#/Pet")]), ("Pet", .object [])],
        [], "/Any", ["file:///pets#/Any"]),
      ("file:///pets",
        [("Any", .object [("$ref", .string "any#/Any")]),
          ("Pet", .object [("$dynamicAnchor", .string "pet")])],
        [("https://x.test/any", .object
          [("Any", .object [("$dynamicRef", .string "#pet")]),
            ("Pet", .object [("$dynamicAnchor", .string "pet")])])],
        "/Any", []),
      ("file:///pets", [("Cat", .object [("$id", .string "#/Pet")]), ("Pet", .object [])],
        [], "/Pet", []),
      ("file:///v1/../api", [("Pet", .object [])], [], "/Pet", [])] :
        List (String × List (String × Json) × List (String × Json) × String × List String)),
      let (uri, members, others, fragment, scope) := entry
      let resolver := Resolver.new
        (.ofDocuments ((uri, .object (("$self", .string logical) :: members)) :: others)) uri
      let named (uri : String) :=
        (resolver.resolveReference (uri ++ "#" ++ fragment) uri scope).map fun node =>
          (node.document.retrievalUri, node.pointer)
      (resolver.store.get? logical).any (fun document => document.document.retrievalUri = uri &&
          document.pointer = "" && Store.logicalUri document uri = logical) ∧
        named uri ≠ named logical := by
  decide +kernel

end Resolver

end SpecForm
