import SpecForm.Proofs.Resolve.Traversal
import SpecForm.Proofs.Store.Mappings

/-!
# Nodes in place

A node is resolved where it stands, or named by a pointer from its document.  Both
chases pass the same references, but the pointer leaves its URI in the scope, and with
it the document of the node.  This makes a difference in one case only: where the chase
ends with a dynamic reference to an anchor, that document is asked for the anchor first,
while a chase from the node in place does not ask it, unless it comes back to it.
-/

namespace SpecForm

namespace Node

theorem key?_withValue (node : Node) (value : Json) : (node.withValue value).key? = node.key? := by
  cases hidentity : node.document.identity <;> simp [withValue, rootOf, key?, hidentity]

theorem key?_overlay (reference target : Node) :
    (reference.overlay target).key? = target.key? := by
  unfold overlay
  dsimp only
  split
  · rfl
  · split
    · exact key?_withValue target _
    · rfl

end Node

namespace Resolver

variable {resolver : Resolver} {documents : List (String × Json)} {place before last : Node × String}
  {hops : List (Node × String)} {node held : Node} {text base anchor uri : String}
  {scope scope' : List String}

theorem key?_overlays (hops : List (Node × String)) (target : Node) :
    (overlays hops target).key? = target.key? := by
  induction hops with
  | nil => rfl
  | cons hop hops ih => exact (Node.key?_overlay _ _).trans ih

theorem exists_get?_of_mapped? {kind : Node.RefKind}
    (h : resolver.mapped? text kind base scope = some held) :
    ∃ key, resolver.store.get? key = some held := by
  obtain ⟨target, -, hheld⟩ := Option.bind_eq_some_iff.mp h
  rw [Option.or_eq_some_iff] at hheld
  rcases hheld with hscope | ⟨-, hown⟩
  · obtain ⟨-, hscope⟩ := Option.ite_none_right_eq_some.mp hscope
    obtain ⟨uri, -, hheld⟩ := List.exists_of_findSome?_eq_some hscope
    exact ⟨_, hheld⟩
  · exact ⟨_, hown⟩

/-! ## Anchors at the end of a chase -/

/-- The chase from a place ends with a dynamic reference to an anchor. -/
structure EndsAtAnchor (resolver : Resolver) (place : Node × String)
    (hops : List (Node × String)) (last : Node × String) (text anchor : String) : Prop where
  trail : resolver.Trail place hops last
  role : last.1.role = .reference text .dynamic
  names : ∃ target, resolver.Names text last.2 target anchor
  ne_empty : anchor ≠ ""
  not_isPointer : ¬Json.Pointer.isPointer anchor

/-- Under the anchor that the chase from the place ends at, the URI has another node than the
one that is found. -/
def Redirects (resolver : Resolver) (uri : String) (place : Node × String) : Prop :=
  ∃ hops last text anchor, resolver.EndsAtAnchor place hops last text anchor ∧
    ∃ held, resolver.store.get? (uri ++ "#" ++ anchor) = some held ∧
      resolver.mapped? text .dynamic last.2 (uris hops) ≠ some held

namespace EndsAtAnchor

theorem move (h : resolver.EndsAtAnchor place hops last text anchor) (scope : List String) :
    resolver.move last.1 last.2 scope =
      .halt ((resolver.mapped? text .dynamic last.2 scope).map last.1.overlay) := by
  obtain ⟨target, hnames⟩ := h.names
  rw [hnames.move_anchor h.ne_empty h.not_isPointer h.role,
    hnames.mapped?_anchor h.ne_empty h.not_isPointer]

theorem not_links (h : resolver.EndsAtAnchor place hops last text anchor) (uri : String)
    (beyond : Node × String) : ¬resolver.Links last uri beyond :=
  not_links_of_halt (h.move []) uri beyond

theorem unique {hops' : List (Node × String)} {last' : Node × String} {text' anchor' : String}
    (h : resolver.EndsAtAnchor place hops last text anchor)
    (h' : resolver.EndsAtAnchor place hops' last' text' anchor') :
    hops = hops' ∧ last = last' ∧ text = text' ∧ anchor = anchor' := by
  obtain ⟨rfl, rfl⟩ := h.trail.unique h'.trail h.not_links h'.not_links
  obtain ⟨rfl, -⟩ := Node.Role.reference.inj (h.role.symm.trans h'.role)
  obtain ⟨_, hnames⟩ := h.names
  obtain ⟨_, hnames'⟩ := h'.names
  exact ⟨rfl, rfl, rfl, hnames.fragment.symm.trans hnames'.fragment⟩

/-- The chase comes out alike in two scopes only if the anchor names one node in both, since
notes do not make two nodes one. -/
theorem follow_eq_iff (h : resolver.EndsAtAnchor place hops last text anchor)
    (hstore : resolver.store = .ofDocuments documents) (hfresh : Fresh scope hops)
    (hfresh' : Fresh scope' hops) :
    resolver.follow resolver.limit place.1 place.2 scope =
        resolver.follow resolver.limit place.1 place.2 scope' ↔
      resolver.mapped? text .dynamic last.2 (scope ++ uris hops) =
        resolver.mapped? text .dynamic last.2 (scope' ++ uris hops) := by
  rw [follow_of_trail h.trail hfresh (h.move _), follow_of_trail h.trail hfresh' (h.move _)]
  cases hheld : resolver.mapped? text .dynamic last.2 (scope ++ uris hops) with
  | none => cases resolver.mapped? text .dynamic last.2 (scope' ++ uris hops) <;> simp
  | some held =>
      cases hheld' : resolver.mapped? text .dynamic last.2 (scope' ++ uris hops) with
      | none => simp
      | some held' =>
          simp only [Option.map_some, Option.some.injEq]
          constructor
          · intro hsame
            obtain ⟨key, hkey⟩ := exists_get?_of_mapped? hheld
            obtain ⟨key', hkey'⟩ := exists_get?_of_mapped? hheld'
            rw [hstore] at hkey hkey'
            apply Store.eq_of_get?_of_key? hkey hkey'
            simpa [key?_overlays, Node.key?_overlay] using congrArg Node.key? hsame
          · rintro rfl
            rfl

theorem not_redirects_iff (h : resolver.EndsAtAnchor place hops last text anchor) :
    ¬resolver.Redirects uri place ↔
      (resolver.store.get? (uri ++ "#" ++ anchor)).or
          (resolver.mapped? text .dynamic last.2 (uris hops)) =
        resolver.mapped? text .dynamic last.2 (uris hops) := by
  have hredirects : resolver.Redirects uri place ↔
      ∃ held, resolver.store.get? (uri ++ "#" ++ anchor) = some held ∧
        resolver.mapped? text .dynamic last.2 (uris hops) ≠ some held := by
    constructor
    · rintro ⟨hops', last', text', anchor', h', hheld⟩
      obtain ⟨rfl, rfl, rfl, rfl⟩ := h.unique h'
      exact hheld
    · exact fun hheld => ⟨hops, last, text, anchor, h, hheld⟩
  rw [hredirects]
  cases resolver.store.get? (uri ++ "#" ++ anchor) with
  | none => simp
  | some held => simp [eq_comm]

end EndsAtAnchor

theorem follow_passed_iff (hstore : resolver.store = .ofDocuments documents)
    (huri : '#' ∉ uri.toList) {fragment : String}
    (hlinks : resolver.Links before (uri ++ "#" ++ fragment) place) :
    resolver.follow resolver.limit place.1 place.2 [uri ++ "#" ++ fragment] =
        resolver.follow resolver.limit place.1 place.2 [] ↔
      ¬resolver.Redirects uri place := by
  have hfresh : ∀ scope, scope ⊆ [uri ++ "#" ++ fragment] → ∀ hops last,
      resolver.Trail place hops last → (∀ uri beyond, ¬resolver.Links last uri beyond) →
      Fresh scope hops := by
    intro scope hscope hops last htrail hend
    refine ⟨htrail.nodup_uris hend, fun other hother hpassed => ?_⟩
    obtain rfl := List.mem_singleton.mp (hscope hpassed)
    exact htrail.uri_notMem hend hlinks hother
  have hown := List.Subset.refl [uri ++ "#" ++ fragment]
  have hnil := List.nil_subset [uri ++ "#" ++ fragment]
  by_cases hanchor : ∃ hops last text anchor, resolver.EndsAtAnchor place hops last text anchor
  · obtain ⟨hops, last, text, anchor, hends⟩ := hanchor
    obtain ⟨target, hnames⟩ := hends.names
    have hpassed := hnames.mapped?_passed hends.ne_empty hends.not_isPointer huri fragment []
      (uris hops)
    rw [hends.follow_eq_iff hstore (hfresh _ hown _ _ hends.trail hends.not_links)
      (hfresh _ hnil _ _ hends.trail hends.not_links), hends.not_redirects_iff]
    simpa [inScope?] using hpassed ▸ Iff.rfl
  · have hnot : ¬resolver.Redirects uri place := by
      rintro ⟨hops, last, text, anchor, hends, -⟩
      exact hanchor ⟨hops, last, text, anchor, hends⟩
    have halike : ∀ scope scope', scope' ⊆ [uri ++ "#" ++ fragment] → ∀ found,
        resolver.follow resolver.limit place.1 place.2 scope = some found →
        resolver.follow resolver.limit place.1 place.2 scope' = some found := by
      intro scope scope' hscope' found hfound
      refine follow_of_follow hfound fun hops last htrail hend _ =>
        ⟨hfresh scope' hscope' hops last htrail hend, ?_⟩
      apply move_congr_of_anchor
      intro text target anchor hrole hnames hne hpointer
      exact absurd ⟨hops, last, text, anchor, htrail, hrole, ⟨target, hnames⟩, hne, hpointer⟩ hanchor
    refine iff_of_true ?_ hnot
    ext found
    exact ⟨halike _ _ hnil found, halike _ _ hown found⟩

/-! ## Pointers -/

theorem resolveReference_of_links
    (h : resolver.Links (.ofReference text, base) uri (node, resolver.baseOf node))
    (hnew : uri ∉ scope) :
    resolver.resolveReference text base scope = resolver.resolveInScope node (scope ++ [uri]) := by
  rw [resolveReference_eq_follow, resolveInScope_eq_follow, follow_of_links h hnew]
  exact Option.map_id'

theorem not_redirects_of_not_isReference (h : ¬node.isReference) :
    ¬resolver.Redirects uri (node, base) := by
  rintro ⟨hops, last, text, anchor, hends, -⟩
  have hrole := Node.role_eq_plain h
  have hhalt : resolver.move node base [] = .halt (some node) := by simp [move, hrole]
  obtain ⟨-, rfl⟩ := hends.trail.unique (.nil (node, base)) hends.not_links
    (not_links_of_halt hhalt)
  cases hrole.symm.trans hends.role

/--
Let a document have no `$self` and be read from a URI without a fragment, and let an
object in it stand at a pointer under which nothing is mapped.  If the object is no
reference, it is found by the pointer and in place.  The root is found by the empty
pointer as it is, reference or not.  Any other object comes out by the pointer as it
does in place with the URI of the pointer in the scope, and thus as it does in place,
except where the chase from there ends at an anchor and the document has another node
with this anchor than the one that the chase finds.
-/
theorem resolveReference_in_place (documents : List (String × Json)) (resolver : Resolver)
    (hstore : resolver.store = .ofDocuments documents) (document : Node)
    (hdocument : document ∈ resolver.store.documents) (node : Node)
    (hwithin : document.Within node) (hobject : node.isObject) :
    let uri := document.document.retrievalUri
    let key := uri ++ "#" ++ node.pointer
    let named := resolver.resolveReference ("#" ++ node.pointer) uri []
    '#' ∉ uri.toList → document.string? "$self" = none → '%' ∉ node.pointer.toList →
    resolver.store.get? key = none →
    (¬node.isReference → named = some node ∧ resolver.resolve node = some node) ∧
    (node = document → named = some document) ∧
    (node ≠ document →
      named = resolver.resolveInScope node [key] ∧
      (named = resolver.resolve node ↔
        ¬resolver.Redirects uri (node, resolver.baseOf node))) := by
  intro uri key named hhash hself hpercent hunmapped
  have horderly : resolver.store.Orderly := hstore ▸ Store.Orderly.ofDocuments documents
  have hroot : document.pointer = "" := horderly.pointer_eq hdocument
  have huri : resolver.store.get? uri = some document := horderly.found hdocument
  have hnames : resolver.Names ("#" ++ node.pointer) uri uri node.pointer := by
    have hown := names_own hhash huri hself node.pointer
    rwa [Reference.decodeFragment_eq_self hpercent] at hown
  have hnode := hwithin.follow?_tokens hroot
  have hwhole : node = document → named = some document := by
    rintro rfl
    have hempty : resolver.Names ("#" ++ node.pointer) uri uri "" :=
      ⟨hnames.target, hnames.fragment.trans hroot⟩
    exact hempty.resolveReference_whole huri []
  have hplain : node ≠ document → ¬node.isReference → named = some node := by
    intro hne hplain
    exact hnames.resolveReference_of_follow? (hwithin.isPointer hroot hne) hunmapped huri hnode
      hplain []
  refine ⟨fun hown => ⟨?_, resolveInScope_of_not_isReference hown []⟩, hwhole, fun hne => ?_⟩
  · by_cases hsame : node = document
    · rw [hwhole hsame, hsame]
    · exact hplain hsame hown
  · by_cases hreference : node.isReference
    · obtain ⟨own, hown⟩ : ∃ own, resolver.store.provenance? node = some ⟨own, uri⟩ := by
        rw [hstore] at hdocument ⊢
        exact (Store.based_ofDocuments documents).exists_base hdocument hwithin hobject
      have hbase : resolver.baseOf node = own := by simp [baseOf, hown]
      have hlinks := hnames.links (hwithin.isPointer hroot hne) hunmapped huri hnode hreference hown
      rw [← hbase] at hlinks
      have hscope : named = resolver.resolveInScope node [key] :=
        resolveReference_of_links hlinks List.not_mem_nil
      rw [hscope]
      exact ⟨rfl, follow_passed_iff hstore hhash hlinks⟩
    · rw [hplain hne hreference, resolve, resolveInScope_of_not_isReference hreference,
        resolveInScope_of_not_isReference hreference]
      exact ⟨rfl, iff_of_true rfl (not_redirects_of_not_isReference hreference)⟩

theorem resolveReference_in_place_dynamic :
    let uri := "https://x.test/a.json"
    let root := Json.object [("Any", .object [("$ref", .string "b.json#/Any")])]
    let resolver := Resolver.new (.ofDocuments [(uri, root), ("https://x.test/b.json", .object
      [("Any", .object [("$dynamicRef", .string "#pet")]),
        ("Pet", .object [("$dynamicAnchor", .string "pet")])])]) uri
    let node := (Store.nextRoot .empty uri root).step "Any"
    resolver.resolveReference ("#" ++ node.pointer) uri [] = resolver.resolve node ∧
      (resolver.resolve node).map Node.key? = some (some (1, "/Pet")) := by
  intro uri root resolver node
  let document := Store.nextRoot .empty uri root
  have hdocument : document ∈ resolver.store.documents := Store.nextRoot_mem_ofDocuments uri root _
  have hwithin : document.Within node :=
    .child .root (Node.step_mem_children (rfl : document.value = root) (by decide +kernel))
  have hunmapped : ∀ key ∈ [uri ++ "#" ++ node.pointer, uri ++ "#" ++ "pet"],
      resolver.store.get? key = none := by
    simp only [← Option.isNone_iff_eq_none]
    decide +kernel
  have hne : node ≠ document := by
    intro hsame
    have hpointer : node.pointer = document.pointer := congrArg Node.pointer hsame
    revert hpointer
    decide +kernel
  obtain ⟨-, -, hplace⟩ := resolveReference_in_place _ resolver rfl document hdocument node hwithin
    (by decide +kernel) (by decide) (by decide +kernel) (by decide +kernel)
    (hunmapped _ List.mem_cons_self)
  have hends : resolver.EndsAtAnchor (node, resolver.baseOf node)
      (resolver.trace 1 (node, resolver.baseOf node)).1
      (resolver.trace 1 (node, resolver.baseOf node)).2 ("#" ++ "pet") "pet" := by
    refine ⟨resolver.trail_trace 1 _, ?_, ⟨_, resolver.names_anchor _ ?_⟩, ?_, ?_⟩ <;>
      decide +kernel
  refine ⟨(hplace hne).2.mpr ?_, by decide +kernel⟩
  have huri : document.document.retrievalUri = uri := rfl
  rw [hends.not_redirects_iff, huri, hunmapped (uri ++ "#" ++ "pet") (by simp), Option.none_or]

/-- A pointer and the node in place come apart where the document has the anchor of a
dynamic reference that another document ends with, and at a root that is a reference. -/
theorem exists_in_place_disagreement :
    let uri := "https://x.test/a.json"
    ∀ entry ∈ ([
      ([("Any", .object [("$ref", .string "b.json#/Any")]),
          ("Pet", .object [("$dynamicAnchor", .string "pet")])], "/Any", (0, "/Pet"), (1, "/Cat")),
      ([("$ref", .string "b.json#/Cat")], "", (0, ""), (1, "/Cat"))] :
        List (List (String × Json) × String × Key × Key)),
      let (members, pointer, byPointer, inPlace) := entry
      let resolver := Resolver.new (.ofDocuments [(uri, .object members),
        ("https://x.test/b.json", .object [("Any", .object [("$dynamicRef", .string "#pet")]),
          ("Cat", .object [("$dynamicAnchor", .string "pet")])])]) uri
      ∃ document node, document ∈ resolver.store.documents ∧ document.Within node ∧
        node.isObject ∧ node.pointer = pointer ∧ document.document.retrievalUri = uri ∧
        document.string? "$self" = none ∧ document.string? "$id" = none ∧
        resolver.store.get? (uri ++ "#" ++ pointer) = none ∧
        (resolver.resolveReference ("#" ++ pointer) uri []).map Node.key? = some (some byPointer) ∧
        (resolver.resolve node).map Node.key? = some (some inPlace) := by
  intro uri entry hentry
  have hrun : let (members, pointer, byPointer, inPlace) := entry
      let resolver := Resolver.new (.ofDocuments [(uri, .object members),
        ("https://x.test/b.json", .object [("Any", .object [("$dynamicRef", .string "#pet")]),
          ("Cat", .object [("$dynamicAnchor", .string "pet")])])]) uri
      ∃ document ∈ resolver.store.documents, ∃ holder ∈ document.tree uri,
        holder.1.isObject ∧ holder.1.pointer = pointer ∧ document.document.retrievalUri = uri ∧
        document.string? "$self" = none ∧ document.string? "$id" = none ∧
        (resolver.store.get? (uri ++ "#" ++ pointer)).isNone ∧
        (resolver.resolveReference ("#" ++ pointer) uri []).map Node.key? = some (some byPointer) ∧
        (resolver.resolve holder.1).map Node.key? = some (some inPlace) := by
    revert entry
    decide +kernel
  obtain ⟨document, hdocument, holder, hmem, hobject, hpointer, huri, hself, hid, hunmapped,
    hresults⟩ := hrun
  exact ⟨document, holder.1, hdocument, (Node.hasBase_of_mem_tree hmem).within, hobject, hpointer,
    huri, hself, hid, Option.isNone_iff_eq_none.mp hunmapped, hresults⟩

end Resolver

end SpecForm
