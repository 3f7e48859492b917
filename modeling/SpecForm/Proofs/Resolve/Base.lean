import SpecForm.Proofs.Resolve.Alias

/-!
# Two bases of one document

References in a document are read against the URI that the document gives itself, and
this is the base that is recorded for its nodes.  The `$self` is applied to whichever
base a reference comes with, so to that URI a second time.  Nothing changes by it
exactly if the `$self`, read against the URI that it gives, gives that URI again.
-/

namespace SpecForm

namespace Store

variable {document : Node}

theorem logicalUri_eq_self (h : document.string? "$self" = none) (uri : String) :
    logicalUri document uri = uri := by
  simp [logicalUri, h]

theorem logicalUri_logicalUri_of_isAbsolute
    (h : ∀ self, document.string? "$self" = some self → Uri.isAbsolute self) (uri : String) :
    logicalUri document (logicalUri document uri) = logicalUri document uri := by
  cases hself : document.string? "$self" with
  | none => rw [logicalUri_eq_self hself, logicalUri_eq_self hself]
  | some self =>
      have hread : ∀ base, logicalUri document base =
          ((Uri.parse self).toOption.map Uri.render).elim base Reference.withoutFragment := by
        intro base
        rw [logicalUri, hself, Option.bind_some, Uri.resolve?_of_isAbsolute (h self hself)]
      rw [hread, hread]
      cases (Uri.parse self).toOption.map Uri.render <;> rfl

theorem get?_logicalUri_register {store : Store} {uri : String} {root : Json}
    (hfresh : store.get? uri = none)
    (hlogical : store.get? (logicalUri (store.nextRoot uri root) uri) = none) :
    (store.register uri root).1.get? (logicalUri (store.nextRoot uri root) uri) =
      some (store.nextRoot uri root) := by
  rw [get?_register hfresh, hlogical, Option.none_or, List.lookup_cons, List.lookup_cons,
    beq_self_eq_true]
  split <;> rfl

end Store

namespace Resolver

variable {resolver : Resolver} {document node : Node} {text uri base base' : String}
  {kind : Node.RefKind} {scope : List String}

theorem logicalBase_of_get? (hhash : '#' ∉ uri.toList)
    (hdocument : resolver.store.get? uri = some document) :
    resolver.logicalBase uri = Store.logicalUri document uri := by
  simp [logicalBase, Reference.withoutFragment_eq_self hhash, hdocument]

theorem logicalBase_eq_self (hhash : '#' ∉ uri.toList)
    (hself : ∀ document, resolver.store.get? uri = some document →
      document.string? "$self" = none) : resolver.logicalBase uri = uri := by
  cases hdocument : resolver.store.get? uri with
  | none => simp [logicalBase, Reference.withoutFragment_eq_self hhash, hdocument]
  | some document =>
      rw [logicalBase_of_get? hhash hdocument, Store.logicalUri_eq_self (hself document hdocument)]

theorem names_own (hhash : '#' ∉ uri.toList) (hdocument : resolver.store.get? uri = some document)
    (hself : document.string? "$self" = none) (fragment : String) :
    resolver.Names ("#" ++ fragment) uri uri (Reference.decodeFragment fragment) := by
  have hnames := resolver.names_hash uri fragment
  rwa [logicalBase_of_get? hhash hdocument, Store.logicalUri_eq_self hself] at hnames

/-! ## What a base is asked for -/

theorem targetUri?_congr_iff :
    (∀ file, resolver.targetUri? file base = resolver.targetUri? file base') ↔
      resolver.logicalBase base = resolver.logicalBase base' := by
  constructor
  · intro h
    simpa [targetUri?] using h ""
  · intro h file
    rw [targetUri?, targetUri?, h]

theorem hop_congr (h : resolver.targetUri? (Reference.split text).1 base =
    resolver.targetUri? (Reference.split text).1 base') :
    resolver.hop text kind base scope = resolver.hop text kind base' scope := by
  unfold hop
  dsimp only
  rw [h]

theorem follow_congr (hrole : node.role = .reference text kind)
    (h : resolver.hop text kind base scope = resolver.hop text kind base' scope) (limit : Nat) :
    resolver.follow limit node base scope = resolver.follow limit node base' scope := by
  unfold follow
  rw [hrole]
  dsimp only
  rw [chase.eq_def, chase.eq_def, h]

/--
Let a document be mapped under the URI that it gives itself.  References are sought in
the same place from this URI and from the one that it was read from exactly if the `$self`
is settled, that is if it gives the one URI again where it is read against it; and so
it is if there is none or if it is absolute.  Any reference that is sought in the same
place from both has one meaning for both, in every scope, and so have the references of
the nodes that stand under the URI of the document itself.
-/
theorem resolveReference_bases (documents : List (String × Json)) (resolver : Resolver)
    (hstore : resolver.store = .ofDocuments documents) (document : Node)
    (hdocument : document ∈ resolver.store.documents) :
    let uri := document.document.retrievalUri
    let logical := Store.logicalUri document uri
    '#' ∉ uri.toList → resolver.store.get? logical = some document →
    ((∀ file, resolver.targetUri? file uri = resolver.targetUri? file logical) ↔
      Store.logicalUri document logical = logical) ∧
    ((∀ self, document.string? "$self" = some self → Uri.isAbsolute self) →
      Store.logicalUri document logical = logical) ∧
    (∀ text, resolver.targetUri? (Reference.split text).1 uri =
        resolver.targetUri? (Reference.split text).1 logical → ∀ scope,
      resolver.resolveReference text uri scope = resolver.resolveReference text logical scope ∧
      ∀ node kind, node.role = .reference text kind → resolver.baseOf node = logical →
        resolver.resolveInScope node scope =
          resolver.follow resolver.limit node uri scope) := by
  intro uri logical hhash hlogical
  have huri : resolver.store.get? uri = some document := by
    rw [hstore] at hdocument ⊢
    exact (Store.Orderly.ofDocuments documents).found hdocument
  have hbase : resolver.logicalBase uri = logical := logicalBase_of_get? hhash huri
  have hbase' : resolver.logicalBase logical = Store.logicalUri document logical :=
    logicalBase_of_get? (Store.hash_notMem_logicalUri hhash document) hlogical
  refine ⟨?_, fun h => Store.logicalUri_logicalUri_of_isAbsolute h uri, ?_⟩
  · rw [targetUri?_congr_iff, hbase, hbase']
    exact eq_comm
  · intro text htarget scope
    refine ⟨resolveReference_congr (hop_congr htarget), fun node kind hrole hown => ?_⟩
    rw [resolveInScope_eq_follow, hown]
    exact follow_congr hrole (hop_congr htarget.symm) _

theorem resolveReference_bases_beside :
    let uri := "https://x.test/api/root.json"
    let logical := "https://x.test/api/main.json"
    let root := Json.object [("$self", .string "main.json"),
      ("Any", .object [("$ref", .string "pet.json#/Pet")])]
    let resolver := Resolver.new (.ofDocuments
      [(uri, root), ("https://x.test/api/pet.json", .object [("Pet", .object [])])]) uri
    resolver.resolveReference "pet.json#/Pet" uri [] =
        resolver.resolveReference "pet.json#/Pet" logical [] ∧
      resolver.resolve ((Store.nextRoot .empty uri root).step "Any") =
        resolver.follow resolver.limit ((Store.nextRoot .empty uri root).step "Any") uri [] ∧
      (resolver.resolveReference "pet.json#/Pet" uri []).map Node.key? = some (some (1, "/Pet")) := by
  intro uri logical root resolver
  let document := Store.nextRoot .empty uri root
  have hgrows : (Store.ofDocuments [(uri, root)]).Extends resolver.store :=
    Store.extends_ofDocuments_append [(uri, root)] _
  have hself : Store.logicalUri document uri = logical := by decide +kernel
  have hlogical : resolver.store.get? (Store.logicalUri document uri) = some document :=
    hgrows.mapped (Store.get?_logicalUri_register rfl rfl)
  have hdocument : document ∈ resolver.store.documents :=
    Store.nextRoot_mem_ofDocuments uri root _
  obtain ⟨htargets, -, hmeans⟩ := resolveReference_bases _ resolver rfl document hdocument
    (by decide) hlogical
  have huri : document.document.retrievalUri = uri := rfl
  rw [huri, hself] at htargets hmeans
  have hsettled : Store.logicalUri document logical = logical := by decide +kernel
  obtain ⟨hnamed, hnode⟩ := hmeans "pet.json#/Pet" (htargets.mpr hsettled _) []
  refine ⟨hnamed, hnode (document.step "Any") .lexical (by decide +kernel) ?_, ?_⟩
  · decide +kernel
  · decide +kernel

/-- Applied twice, a `$self` with a directory in it leads away from the document: what is
found from the one URI is missed from the other, by a reference and by a node of the
document. -/
theorem exists_base_disagreement :
    let uri := "https://x.test/root.json"
    let logical := "https://x.test/api/root.json"
    let root := Json.object [("$self", .string "api/root.json"), ("Pet", .object []),
      ("Any", .object [("$ref", .string "#/Pet")])]
    let resolver := Resolver.new (.ofDocuments [(uri, root)]) uri
    ∃ document ∈ resolver.store.documents, document.document.retrievalUri = uri ∧
      document.string? "$self" = some "api/root.json" ∧
      Store.logicalUri document uri = logical ∧ resolver.store.get? logical = some document ∧
      (resolver.resolveReference "#/Pet" uri []).map Node.pointer = some "/Pet" ∧
      resolver.resolveReference "#/Pet" logical [] = none ∧
      resolver.baseOf (document.step "Any") = logical ∧
      (resolver.follow resolver.limit (document.step "Any") uri []).map Node.pointer =
        some "/Pet" ∧
      resolver.resolve (document.step "Any") = none := by
  intro uri logical root resolver
  let document := Store.nextRoot .empty uri root
  have hself : Store.logicalUri document uri = logical := by decide +kernel
  have hlogical : resolver.store.get? (Store.logicalUri document uri) = some document :=
    Store.get?_logicalUri_register rfl rfl
  refine ⟨document, Store.nextRoot_mem_ofDocuments uri root [], rfl, by decide +kernel,
    hself, hself ▸ hlogical, by decide +kernel, Option.isNone_iff_eq_none.mp (by decide +kernel),
    by decide +kernel, by decide +kernel, Option.isNone_iff_eq_none.mp (by decide +kernel)⟩

end Resolver

end SpecForm
