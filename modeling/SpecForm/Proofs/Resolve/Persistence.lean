import SpecForm.Proofs.Resolve.Anchor

/-!
# References that stay as they are

More documents give a store more keys, and a chase could be turned aside by any of them.
A chase over `$ref` alone looks up nothing that was not decided already: the base of a
place is a key of the store, so the URI that it gives itself is known; a key that
answered goes on answering; and no new key comes in front of a pointer, as long as
nothing declares a pointer as its name.
-/

namespace SpecForm

theorem Node.baseUnder_eq_or_mem (node : Node) (outer : String) :
    node.baseUnder outer = outer ∨
      node.isObject ∧ node.baseUnder outer ∈ node.identifiers outer := by
  cases hid : node.string? "$id" with
  | none => exact .inl (by simp [baseUnder, hid])
  | some id =>
      cases huri : Uri.resolve? outer id with
      | none => exact .inl (by simp [baseUnder, hid, huri])
      | some uri =>
          exact .inr ⟨isObject_of_string? hid, by simp [baseUnder, identifiers, hid, huri]⟩

namespace Store

variable {documents : List (String × Json)} {document node : Node} {base outer : String}

/-! ## Bases are mapped -/

theorem isSome_get?_baseUnder (hdocument : document ∈ (ofDocuments documents).documents)
    (hmem : (node, outer) ∈
      document.tree (logicalUri document document.document.retrievalUri))
    (houter : ((ofDocuments documents).get? outer).isSome) :
    ((ofDocuments documents).get? (node.baseUnder outer)).isSome := by
  rcases node.baseUnder_eq_or_mem outer with hsame | ⟨hobject, hkey⟩
  · rwa [hsame]
  · apply isSome_get?_of_mem_mappings hdocument
    exact mem_mappings.mpr (.inr ⟨outer, List.mem_filter.mpr ⟨hmem, hobject⟩, .inl hkey⟩)

theorem isSome_get?_of_hasBase (hdocument : document ∈ (ofDocuments documents).documents)
    (h : document.HasBase (logicalUri document document.document.retrievalUri) node base) :
    ((ofDocuments documents).get? base).isSome := by
  induction h with
  | root =>
      refine isSome_get?_baseUnder hdocument (Node.mem_tree_self _ _) ?_
      exact isSome_get?_of_mem_mappings hdocument (mem_mappings.mpr (.inl ⟨.inr rfl, rfl⟩))
  | child hparent hchild ih =>
      obtain ⟨outer, hmem, rfl⟩ := hparent.exists_mem_tree
      exact isSome_get?_baseUnder hdocument (Node.mem_tree_child hmem hchild) ih

structure Grounded (store : Store) (node : Node) (base : String) : Prop where
  recorded : ∃ source, store.provenance? node = some ⟨base, source⟩
  hash_notMem : '#' ∉ base.toList
  isSome : (store.get? base).isSome

theorem exists_grounded (hplain : ∀ document ∈ (ofDocuments documents).documents,
      '#' ∉ document.document.retrievalUri.toList)
    (hdocument : document ∈ (ofDocuments documents).documents) (hwithin : document.Within node)
    (hobject : node.isObject) : ∃ base, (ofDocuments documents).Grounded node base := by
  obtain ⟨base, hbase⟩ := hwithin.exists_hasBase
    (logicalUri document document.document.retrievalUri)
  have hrecorded := based_ofDocuments documents document hdocument node base hbase hobject
  exact ⟨base, ⟨_, hrecorded⟩, hash_notMem_of_provenance? hplain hrecorded,
    isSome_get?_of_hasBase hdocument hbase⟩

end Store

namespace Resolver

variable {documents : List (String × Json)} {before after : Resolver} {node : Node}
  {text base target fragment uri : String} {scope : List String}
  {place last : Node × String} {hops : List (Node × String)}

/-! ## One hop -/

/-- The second store keeps what the first one maps and records, and maps no pointer. -/
structure Grown (before after : Resolver) : Prop where
  grows : before.store.Extends after.store
  unmapped : ∀ target pointer, '#' ∉ target.toList → Json.Pointer.isPointer pointer →
    after.store.get? (target ++ "#" ++ pointer) = none

theorem Grown.get? (h : before.Grown after) (hsome : (before.store.get? uri).isSome) :
    after.store.get? uri = before.store.get? uri := by
  obtain ⟨held, hheld⟩ := Option.isSome_iff_exists.mp hsome
  rw [hheld, h.grows.mapped hheld]

theorem Grown.targetUri? (h : before.Grown after) (hhash : '#' ∉ base.toList)
    (hbase : (before.store.get? base).isSome) (file : String) :
    after.targetUri? file base = before.targetUri? file base := by
  have hlogical : after.logicalBase base = before.logicalBase base := by
    rw [logicalBase, logicalBase, Reference.withoutFragment_eq_self hhash, h.get? hbase]
  rw [Resolver.targetUri?, Resolver.targetUri?, hlogical]

theorem Grown.unmapped_of_hopInside (h : before.Grown after) (hhash : '#' ∉ target.toList)
    (hunmapped : before.store.get? (Reference.withFragment target fragment) = none)
    (hfound : before.hopInside target fragment ≠ .missing) :
    after.store.get? (Reference.withFragment target fragment) = none := by
  by_cases hpointer : Json.Pointer.isPointer fragment
  · rw [Reference.withFragment_of_isPointer hpointer]
    exact h.unmapped target fragment hhash hpointer
  · exfalso
    apply hfound
    by_cases hempty : fragment = ""
    · subst hempty
      have hnone : before.store.get? target = none := hunmapped
      simp [hopInside, hnone]
    · exact hopInside_anchor before target hempty hpointer

/-- A place in a document of the store, with the base that is recorded for it. -/
structure Standing (resolver : Resolver) (place : Node × String) : Prop where
  within : ∃ document ∈ resolver.store.documents, document.Within place.1
  grounded : resolver.store.Grounded place.1 place.2

section

variable (hstore : before.store = .ofDocuments documents)
  (hplain : ∀ document ∈ before.store.documents, '#' ∉ document.document.retrievalUri.toList)

include hstore hplain

theorem standing_of_follow? {document found : Node} {tokens : List String}
    (hdocument : before.store.get? target = some document)
    (hfollow : document.follow? tokens = some found) (hreference : found.isReference) :
    ∃ next, before.Standing (found, next) := by
  have hobject : found.isObject := Node.isObject_of_isReference hreference
  rw [hstore] at hdocument
  obtain ⟨root, hroot, hmem⟩ := Store.exists_mappings_of_get? hdocument
  have hwithin : root.Within found :=
    Node.within_of_follow? (Store.within_of_mem_mappings hmem) hfollow hobject
  obtain ⟨next, hnext⟩ := Store.exists_grounded (hstore ▸ hplain) hroot hwithin hobject
  exact ⟨next, ⟨root, hstore ▸ hroot, hwithin⟩, hstore ▸ hnext⟩

theorem Links.standing {beyond : Node × String} (h : before.Links place uri beyond) :
    before.Standing beyond := by
  cases h with
  | intro hrole htarget hpointer hmissed hdocument hfollow hreference =>
      obtain ⟨next, hstanding⟩ := standing_of_follow? hstore hplain hdocument hfollow hreference
      obtain ⟨source, hrecorded⟩ := hstanding.grounded.recorded
      rw [hrecorded]
      exact hstanding

theorem Grown.hopInside (h : before.Grown after)
    (hfound : before.hopInside target fragment ≠ .missing) :
    after.hopInside target fragment = before.hopInside target fragment := by
  cases hdocument : before.store.get? target with
  | none => simp [Resolver.hopInside, hdocument] at hfound
  | some document =>
      have hafter : after.store.get? target = some document := h.grows.mapped hdocument
      simp only [Resolver.hopInside, hdocument, hafter]
      split
      · rfl
      · rename_i found hinner
        obtain ⟨tokens, hfollow⟩ : ∃ tokens, document.follow? tokens = some found := by
          split at hinner
          · exact ⟨[], hinner⟩
          · exact ⟨_, (Option.ite_none_right_eq_some.mp hinner).2⟩
        split
        · rename_i hreference
          obtain ⟨next, hstanding⟩ := standing_of_follow? hstore hplain hdocument hfollow hreference
          obtain ⟨source, hrecorded⟩ := hstanding.grounded.recorded
          rw [hrecorded, h.grows.provenance? hrecorded]
        · rfl

theorem Grown.hop (h : before.Grown after) (hbase : before.store.Grounded node base)
    (hfound : before.hop text .lexical base scope ≠ .missing) :
    after.hop text .lexical base scope = before.hop text .lexical base scope := by
  cases htarget : before.targetUri? (Reference.split text).1 base with
  | none => simp [hop_eq, mapped?, htarget] at hfound
  | some target =>
      have hnames : before.Names text base target (Reference.split text).2 := ⟨htarget, rfl⟩
      have hnames' : after.Names text base target (Reference.split text).2 :=
        ⟨(h.targetUri? hbase.hash_notMem hbase.isSome _).trans htarget, rfl⟩
      have hmapped : before.mapped? text .lexical base scope = _ :=
        hnames.mapped?_of_not_anchor (by simp) scope
      have hmapped' : after.mapped? text .lexical base scope = _ :=
        hnames'.mapped?_of_not_anchor (by simp) scope
      cases hheld : before.store.get? (Reference.withFragment target (Reference.split text).2) with
      | some held =>
          have hheld' := h.grows.mapped hheld
          rw [hop_eq, hop_eq, hmapped, hmapped', hheld, hheld']
      | none =>
          have hinside : before.hop text .lexical base scope =
              before.hopInside target (Reference.split text).2 :=
            hnames.hop_of_unmapped (hmapped.trans hheld)
          rw [hinside] at hfound ⊢
          have hunmapped := h.unmapped_of_hopInside (hash_notMem_of_targetUri? htarget) hheld hfound
          rw [hnames'.hop_of_unmapped (hmapped'.trans hunmapped),
            h.hopInside hstore hplain hfound]

/-! ## The whole chase -/

theorem Grown.move (h : before.Grown after) (hbase : before.store.Grounded place.1 place.2)
    (hlexical : ∀ text kind, place.1.role = .reference text kind → kind = .lexical)
    (hfound : before.move place.1 place.2 scope ≠ .halt none) :
    after.move place.1 place.2 scope = before.move place.1 place.2 scope := by
  unfold Resolver.move at hfound ⊢
  cases hrole : place.1.role with
  | plain => rfl
  | broken => rfl
  | reference text kind =>
      obtain rfl := hlexical text kind hrole
      have hhop : before.hop text .lexical place.2 scope ≠ .missing := by
        intro hmissing
        simp [hrole, hmissing] at hfound
      simp only [h.hop hstore hplain hbase hhop]

def Move.beyond? : Move → Option (Node × String)
  | .halt _ => none
  | .onward _ node base => some (node, base)

/-- Every reference that the chase from a place comes to is a `$ref`. -/
def Lexical (resolver : Resolver) (place : Node × String) : Prop :=
  ∀ hops last, resolver.Trail place hops last →
    ∀ text kind, last.1.role = .reference text kind → kind = .lexical

omit hstore hplain in
theorem Lexical.of_halt {resolver : Resolver} {target : Option Node}
    (hrole : place.1.role = .reference text .lexical)
    (hhalt : resolver.move place.1 place.2 [] = .halt target) : resolver.Lexical place := by
  intro hops last htrail text' kind hlast
  cases htrail with
  | nil =>
      rw [hrole, Node.Role.reference.injEq] at hlast
      exact hlast.2.symm
  | cons hfirst _ => exact absurd hfirst (not_links_of_halt hhalt _ _)

omit hstore hplain in
theorem Lexical.cons {resolver : Resolver} {beyond : Node × String}
    (hrole : place.1.role = .reference text .lexical) (hlinks : resolver.Links place uri beyond)
    (hrest : resolver.Lexical beyond) : resolver.Lexical place := by
  intro hops last htrail text' kind hlast
  cases htrail with
  | nil =>
      rw [hrole, Node.Role.reference.injEq] at hlast
      exact hlast.2.symm
  | cons hfirst htrail =>
      obtain ⟨rfl, rfl⟩ := hlinks.unique hfirst
      exact hrest _ last htrail text' kind hlast

theorem Grown.trail (h : before.Grown after) (hstanding : before.Standing place)
    (hlexical : before.Lexical place) (htrail : before.Trail place hops last) :
    after.Trail place hops last ∧ before.Standing last := by
  induction htrail with
  | nil place => exact ⟨.nil place, hstanding⟩
  | @cons place beyond last uri hops hlinks hrest ih =>
      have hown := hlexical [] place (.nil place)
      have hleads := hlinks.leads
      have hmove : after.move place.1 place.2 [] = before.move place.1 place.2 [] := by
        apply h.move hstore hplain hstanding.grounded hown
        rw [hleads]
        exact fun hhalt => by cases hhalt
      have hafter : after.Links place uri beyond := links_of_leads (hmove.trans hleads)
      obtain ⟨htrail, hlast⟩ := ih (hlinks.standing hstore hplain) fun hops last hbeyond =>
        hlexical _ last (.cons hlinks hbeyond)
      exact ⟨.cons hafter htrail, hlast⟩

theorem Grown.follow (h : before.Grown after) (hstanding : before.Standing place)
    (hlexical : before.Lexical place) {found : Node}
    (hfound : before.follow before.limit place.1 place.2 scope = some found) :
    after.follow after.limit place.1 place.2 scope = some found := by
  obtain ⟨hops, last, target, htrail, hfresh, hhalt, rfl⟩ := follow_eq_some_iff.mp hfound
  obtain ⟨hafter, hlast⟩ := h.trail hstore hplain hstanding hlexical htrail
  refine follow_eq_some_iff.mpr ⟨hops, last, target, hafter, hfresh, ?_, rfl⟩
  rw [h.move hstore hplain hlast.grounded (hlexical _ _ htrail), hhalt]
  rw [hhalt]
  exact fun hnone => by cases hnone

end

theorem grown_of_append {more : List (String × Json)}
    (hbefore : before.store = .ofDocuments documents)
    (hafter : after.store = .ofDocuments (documents ++ more))
    (hplain : ∀ document ∈ after.store.documents, '#' ∉ document.document.retrievalUri.toList)
    (hnames : ∀ document ∈ after.store.documents,
      ∀ holder ∈ document.objects (Store.logicalUri document document.document.retrievalUri),
        ∀ name, holder.1.Declares holder.2 name → ¬Json.Pointer.isPointer name) :
    before.Grown after := by
  constructor
  · rw [hbefore, hafter]
    exact Store.extends_ofDocuments_append documents more
  · intro target pointer hhash hpointer
    rw [Option.eq_none_iff_forall_ne_some]
    intro held hheld
    rw [hafter] at hplain hheld
    obtain ⟨document, hdocument, outer, hobject, -, hdeclares⟩ :=
      Store.declares_of_get? hplain hhash hheld
    exact hnames document (hafter ▸ hdocument) _ hobject pointer hdeclares hpointer

/--
Let documents be read from URIs without fragments, and let nothing in them declare a name,
be it by an anchor or by the fragment of an `$id`, that could be taken for a pointer.  Then
a node of a document from which the chase goes over `$ref` alone, and which resolves,
resolves to the same node whatever documents are loaded after it.
-/
theorem resolve_of_append (documents more : List (String × Json)) (before after : Resolver)
    (hbefore : before.store = .ofDocuments documents)
    (hafter : after.store = .ofDocuments (documents ++ more))
    (hplain : ∀ document ∈ after.store.documents, '#' ∉ document.document.retrievalUri.toList)
    (hnames : ∀ document ∈ after.store.documents,
      ∀ holder ∈ document.objects (Store.logicalUri document document.document.retrievalUri),
        ∀ name, holder.1.Declares holder.2 name → ¬Json.Pointer.isPointer name)
    (document node found : Node) (hdocument : document ∈ before.store.documents)
    (hwithin : document.Within node)
    (hlexical : before.Lexical (node, before.baseOf node))
    (hfound : before.resolve node = some found) : after.resolve node = some found := by
  have hgrown : before.Grown after := grown_of_append hbefore hafter hplain hnames
  by_cases hreference : node.isReference
  · have hplain' : ∀ document ∈ before.store.documents,
        '#' ∉ document.document.retrievalUri.toList := by
      intro document hdocument
      exact hplain document (hgrown.grows.documents.subset hdocument)
    have hdocument' := hbefore ▸ hdocument
    obtain ⟨base, hbase⟩ := Store.exists_grounded (hbefore ▸ hplain') hdocument' hwithin
      (Node.isObject_of_isReference hreference)
    rw [← hbefore] at hbase
    obtain ⟨source, hrecorded⟩ := hbase.recorded
    have hown : before.baseOf node = base := by simp [baseOf, hrecorded]
    have hown' : after.baseOf node = base := by
      simp [baseOf, hgrown.grows.provenance? hrecorded]
    rw [hown] at hlexical
    rw [resolve, resolveInScope_eq_follow, hown] at hfound
    rw [resolve, resolveInScope_eq_follow, hown']
    exact hgrown.follow hbefore hplain' ⟨⟨document, hdocument, hwithin⟩, hbase⟩ hlexical hfound
  · rw [resolve, resolveInScope_of_not_isReference hreference] at hfound ⊢
    exact hfound

theorem resolve_of_append_late :
    let uri := "https://x.test/a.json"
    let root := Json.object [("Any", .object [("$ref", .string "b.json#/Pet")])]
    let documents := [(uri, root), ("https://x.test/b.json", .object
      [("Pet", .object [("$ref", .string "#cat")]), ("Cat", .object [("$anchor", .string "cat")])])]
    let late := ("https://x.test/c.json", Json.object [("$id", .string "b.json"),
      ("Pet", .object [("$anchor", .string "cat")])])
    let before := Resolver.new (.ofDocuments documents) uri
    let after := Resolver.new (.ofDocuments (documents ++ [late])) uri
    let node := (Store.nextRoot .empty uri root).step "Any"
    ∃ found, before.resolve node = some found ∧ after.resolve node = some found ∧
      found.key? = some (1, "/Cat") := by
  intro uri root documents late before after node
  let document := Store.nextRoot .empty uri root
  have hdocument : document ∈ before.store.documents := Store.nextRoot_mem_ofDocuments uri root _
  have hwithin : document.Within node :=
    .child .root (Node.step_mem_children (rfl : document.value = root) (by decide +kernel))
  have hplain : ∀ document ∈ after.store.documents,
      '#' ∉ document.document.retrievalUri.toList := by decide +kernel
  have hnames : ∀ document ∈ after.store.documents,
      ∀ holder ∈ document.objects (Store.logicalUri document document.document.retrievalUri),
        ∀ name, holder.1.Declares holder.2 name → ¬Json.Pointer.isPointer name := by
    have hrun : ∀ document ∈ after.store.documents,
        ∀ holder ∈ document.objects (Store.logicalUri document document.document.retrievalUri),
          (∀ keyword ∈ Store.anchorKeywords,
            (holder.1.string? keyword).all fun name => !Json.Pointer.isPointer name) ∧
          ((holder.1.string? "$id").bind (Uri.resolve? holder.2)).all
            fun uri => '#' ∉ uri.toList := by decide +kernel
    intro document hdocument holder hholder name hdeclares
    obtain ⟨hanchors, hid⟩ := hrun document hdocument holder hholder
    rcases hdeclares with ⟨keyword, hkeyword, hname⟩ | ⟨id, hown, huri⟩
    · simpa [hname] using hanchors keyword hkeyword
    · simp [hown, huri] at hid
  let place := (node, before.baseOf node)
  have hrole : place.1.role = .reference "b.json#/Pet" .lexical := by decide +kernel
  have hrun : ((before.move place.1 place.2 []).beyond?.map fun pet =>
      (pet.1.role, (before.move pet.1 pet.2 []).beyond?.isNone)) =
        some (.reference "#cat" .lexical, true) := by decide +kernel
  have hlexical : before.Lexical place := by
    cases hfirst : before.move place.1 place.2 [] with
    | halt target => simp [hfirst, Move.beyond?] at hrun
    | onward reached pet next =>
        rw [hfirst, Move.beyond?, Option.map_some, Option.some.injEq, Prod.mk.injEq] at hrun
        have hlinks : before.Links place reached (pet, next) := links_of_leads hfirst
        refine .cons hrole hlinks ?_
        cases hsecond : before.move pet next [] with
        | onward => simp [hsecond, Move.beyond?] at hrun
        | halt target => exact .of_halt hrun.1 hsecond
  have hresolved : (before.resolve node).map Node.key? = some (some (1, "/Cat")) := by
    decide +kernel
  obtain ⟨found, hfound, hkey⟩ := Option.map_eq_some_iff.mp hresolved
  exact ⟨found, hfound, resolve_of_append documents [late] before after rfl rfl hplain hnames
    document node found hdocument hwithin hlexical hfound, hkey⟩

/-- A later document is read from a URI with a fragment, and what was found by a pointer
before is that document now. -/
theorem exists_diverted_append :
    let uri := "https://x.test/a.json"
    let root := Json.object [("Any", .object [("$ref", .string "b.json#/Pet")])]
    let documents := [(uri, root), ("https://x.test/b.json", .object
      [("Pet", .object [("type", .string "string")])])]
    let late := ("https://x.test/b.json#/Pet", Json.object [("type", .string "number")])
    let before := Resolver.new (.ofDocuments documents) uri
    let after := Resolver.new (.ofDocuments (documents ++ [late])) uri
    let node := (Store.nextRoot .empty uri root).step "Any"
    (∀ document ∈ before.store.documents, '#' ∉ document.document.retrievalUri.toList) ∧
    (∀ document ∈ after.store.documents,
      ∀ holder ∈ document.objects (Store.logicalUri document document.document.retrievalUri),
        ∀ name, ¬holder.1.Declares holder.2 name) ∧
    Store.nextRoot .empty uri root ∈ before.store.documents ∧
    (Store.nextRoot .empty uri root).Within node ∧
    before.Lexical (node, before.baseOf node) ∧
    (before.resolve node).map Node.key? = some (some (1, "/Pet")) ∧
    (after.resolve node).map Node.key? = some (some (2, "")) := by
  intro uri root documents late before after node
  have hsilent : ∀ document ∈ after.store.documents,
      ∀ holder ∈ document.objects (Store.logicalUri document document.document.retrievalUri),
        (∀ keyword ∈ Store.anchorKeywords, holder.1.string? keyword = none) ∧
          holder.1.string? "$id" = none := by decide +kernel
  have hchild : node ∈ (Store.nextRoot .empty uri root).children :=
    Node.step_mem_children (rfl : (Store.nextRoot .empty uri root).value = root) (by decide +kernel)
  refine ⟨by decide +kernel, ?_, Store.nextRoot_mem_ofDocuments uri root _, .child .root hchild, ?_,
    by decide +kernel, by decide +kernel⟩
  · intro document hdocument holder hholder name hdeclares
    obtain ⟨hanchors, hid⟩ := hsilent document hdocument holder hholder
    rcases hdeclares with ⟨keyword, hkeyword, hname⟩ | ⟨id, hown, -⟩
    · simp [hanchors keyword hkeyword] at hname
    · simp [hid] at hown
  · have hrole : node.role = .reference "b.json#/Pet" .lexical := by decide +kernel
    have hrun : (before.move node (before.baseOf node) []).beyond?.isNone := by decide +kernel
    cases hmove : before.move node (before.baseOf node) [] with
    | onward => simp [hmove, Move.beyond?] at hrun
    | halt target => exact .of_halt hrole hmove

end Resolver

end SpecForm
