import SpecForm.Proofs.Resolve.Base
import SpecForm.Proofs.Store.Mappings

/-!
# Anchors of a resource

An anchor is looked up under the base of the node that refers to it.  What is found
stands under that base too and declares the anchor, since a key that is made of a base
and an anchor tells both; and if anything under the base declares the anchor, something
is found, since a declaration that came late found its key taken by another one of the
same base.
-/

namespace SpecForm

namespace Node

variable {node : Node} {outer base anchor : String}

/-- The node, which stands under the base `outer`, declares the anchor: by a keyword, or by
an `$id` that has it as its fragment. -/
def Declares (node : Node) (outer anchor : String) : Prop :=
  (∃ keyword ∈ Store.anchorKeywords, node.string? keyword = some anchor) ∨
    ∃ id, node.string? "$id" = some id ∧
      Uri.resolve? outer id = some (node.baseUnder outer ++ "#" ++ anchor)

theorem mem_anchors {key : String} : key ∈ node.anchors base ↔
    ∃ keyword ∈ Store.anchorKeywords, ∃ anchor,
      node.string? keyword = some anchor ∧ key = base ++ "#" ++ anchor := by
  simp only [anchors, List.mem_map, List.mem_filterMap, Store.anchorKeywords]
  constructor
  · rintro ⟨anchor, ⟨keyword, hkeyword, hanchor⟩, rfl⟩
    exact ⟨keyword, hkeyword, anchor, hanchor, rfl⟩
  · rintro ⟨keyword, hkeyword, anchor, hanchor, rfl⟩
    exact ⟨anchor, ⟨keyword, hkeyword, hanchor⟩, rfl⟩

theorem mem_identifiers {key : String} (h : key ∈ node.identifiers outer) :
    ∃ id uri, node.string? "$id" = some id ∧ Uri.resolve? outer id = some uri ∧
      node.baseUnder outer = Reference.withoutFragment uri ∧
      (key = uri ∨ key = Reference.withoutFragment uri) := by
  unfold identifiers at h
  cases hid : node.string? "$id" with
  | none => simp [hid] at h
  | some id =>
      cases huri : Uri.resolve? outer id with
      | none => simp [hid, huri] at h
      | some uri =>
          have hbase : node.baseUnder outer = Reference.withoutFragment uri := by
            simp [baseUnder, hid, huri]
          exact ⟨id, uri, rfl, huri, hbase, by simpa [hid, huri] using h⟩

/-- A key that is made of a base and an anchor tells both. -/
theorem declares_of_key (hbase : '#' ∉ base.toList)
    (hunder : '#' ∉ (node.baseUnder outer).toList)
    (h : base ++ "#" ++ anchor ∈ node.identifiers outer ∨
      base ++ "#" ++ anchor ∈ node.anchors (node.baseUnder outer)) :
    node.baseUnder outer = base ∧ node.Declares outer anchor := by
  rcases h with hid | hanchor
  · obtain ⟨id, uri, hid, huri, hown, rfl | hkey⟩ := mem_identifiers hid
    · rw [Reference.withoutFragment_append hbase] at hown
      exact ⟨hown, .inr ⟨id, hid, hown ▸ huri⟩⟩
    · have hhash := Reference.hash_notMem_withoutFragment uri
      rw [← hkey] at hhash
      simp at hhash
  · obtain ⟨keyword, hkeyword, name, hname, hkey⟩ := mem_anchors.mp hanchor
    obtain ⟨rfl, rfl⟩ := (Reference.append_hash_inj hbase hunder).mp hkey
    exact ⟨rfl, .inl ⟨keyword, hkeyword, hname⟩⟩

end Node

namespace Store

variable {documents : List (String × Json)} {document node found : Node} {base anchor : String}

theorem declares_of_get? (hplain : ∀ document ∈ (ofDocuments documents).documents,
      '#' ∉ document.document.retrievalUri.toList) (hbase : '#' ∉ base.toList)
    (h : (ofDocuments documents).get? (base ++ "#" ++ anchor) = some found) :
    ∃ document ∈ (ofDocuments documents).documents, ∃ outer,
      (found, outer) ∈
        document.objects (logicalUri document document.document.retrievalUri) ∧
      found.baseUnder outer = base ∧ found.Declares outer anchor := by
  obtain ⟨document, hdocument, hmem⟩ := exists_mappings_of_get? h
  have huri := hplain document hdocument
  have hlogical := hash_notMem_logicalUri huri document
  rcases mem_mappings.mp hmem with ⟨hown, -⟩ | ⟨outer, hobject, hkey⟩
  · rcases hown with hown | hown
    · rw [← hown] at huri
      simp at huri
    · rw [← hown] at hlogical
      simp at hlogical
  · have hunder : '#' ∉ (found.baseUnder outer).toList :=
      (Node.hasBase_of_mem_tree (List.mem_of_mem_filter hobject)).hash_notMem hlogical
    exact ⟨document, hdocument, outer, hobject, Node.declares_of_key hbase hunder hkey⟩

theorem isSome_get?_of_anchor (hdocument : document ∈ (ofDocuments documents).documents)
    (hbase : document.HasBase (logicalUri document document.document.retrievalUri) node base)
    (hobject : node.isObject) {keyword : String} (hkeyword : keyword ∈ anchorKeywords)
    (hanchor : node.string? keyword = some anchor) :
    ((ofDocuments documents).get? (base ++ "#" ++ anchor)).isSome := by
  obtain ⟨outer, hmem, rfl⟩ := hbase.exists_mem_tree
  apply isSome_get?_of_mem_mappings hdocument
  refine mem_mappings.mpr (.inr ⟨outer, List.mem_filter.mpr ⟨hmem, hobject⟩, .inr ?_⟩)
  exact Node.mem_anchors.mpr ⟨keyword, hkeyword, anchor, hanchor, rfl⟩

end Store

namespace Resolver

/--
Let documents be read from URIs without fragments.  What an anchor names under the base of
a node that was indexed is an object that stands under the logical base and declares the
anchor; and the anchor names something as soon as any object under that base has it as its
`$anchor` or `$dynamicAnchor`.  The logical base is the base itself, unless the node that
is mapped under the base gives itself another URI.
-/
theorem resolveReference_own_anchor (documents : List (String × Json)) (resolver : Resolver)
    (hstore : resolver.store = .ofDocuments documents)
    (hplain : ∀ document ∈ resolver.store.documents,
      '#' ∉ document.document.retrievalUri.toList)
    (node : Node) (provenance : Provenance)
    (hnode : resolver.store.provenance? node = some provenance)
    (anchor : String) (hne : anchor ≠ "") (hpercent : '%' ∉ anchor.toList)
    (hpointer : ¬Json.Pointer.isPointer anchor) :
    let base := resolver.baseOf node
    let logical := resolver.logicalBase base
    let named := resolver.resolveReference ("#" ++ anchor) base []
    (∀ found, named = some found → ∃ document ∈ resolver.store.documents, ∃ outer,
      (found, outer) ∈
        document.objects (Store.logicalUri document document.document.retrievalUri) ∧
      found.Declares outer anchor ∧ resolver.baseOf found = logical ∧
      resolver.store.provenance? found = some ⟨logical, document.document.retrievalUri⟩) ∧
    (∀ document ∈ resolver.store.documents, ∀ other, document.Within other →
      resolver.baseOf other = logical →
      (∃ keyword ∈ Store.anchorKeywords, other.string? keyword = some anchor) →
      named.isSome) ∧
    ((∀ held, resolver.store.get? base = some held → held.string? "$self" = none) →
      logical = base) := by
  intro base logical named
  have hbased : resolver.store.Based := hstore ▸ Store.based_ofDocuments documents
  have hlogical : '#' ∉ logical.toList := resolver.hash_notMem_logicalBase base
  have hnamed : named = resolver.store.get? (logical ++ "#" ++ anchor) :=
    (resolver.names_anchor base hpercent).resolveReference_anchor hne hpointer []
  rw [hnamed]
  refine ⟨?_, ?_, ?_⟩
  · intro found hfound
    obtain ⟨document, hdocument, outer, hobject, hunder, hdeclares⟩ :=
      Store.declares_of_get? (hstore ▸ hplain) hlogical (hstore ▸ hfound)
    rw [← hstore] at hdocument
    obtain ⟨hmem, hisObject⟩ := List.mem_filter.mp hobject
    have hrecorded := hbased document hdocument found logical
      (hunder ▸ Node.hasBase_of_mem_tree hmem) hisObject
    exact ⟨document, hdocument, outer, hobject, hdeclares, by simp [baseOf, hrecorded], hrecorded⟩
  · rintro document hdocument other hwithin hother ⟨keyword, hkeyword, hanchor⟩
    have hisObject := Node.isObject_of_string? hanchor
    obtain ⟨under, hunder⟩ := hwithin.exists_hasBase
      (Store.logicalUri document document.document.retrievalUri)
    have hrecorded := hbased document hdocument other under hunder hisObject
    obtain rfl : under = logical := by
      rw [← hother]
      simp [baseOf, hrecorded]
    rw [hstore] at hdocument ⊢
    exact Store.isSome_get?_of_anchor hdocument hunder hisObject hkeyword hanchor
  · have hown : base = provenance.base := by
      simp [base, baseOf, hnode]
    have hbase : '#' ∉ base.toList := by
      rw [hown]
      rw [hstore] at hplain hnode
      exact Store.hash_notMem_of_provenance? hplain hnode
    exact logicalBase_eq_self hbase

theorem resolveReference_own_anchor_shared :
    let resolver := Resolver.new (.ofDocuments
      [("https://x.test/a.json", .object [("Pet", .object [("$id", .string "pet.json"),
          ("Name", .object [("$anchor", .string "name")])])]),
        ("https://x.test/b.json", .object [("Pet", .object [("$id", .string "pet.json"),
          ("Other", .object [("$dynamicAnchor", .string "name")])])])]) "https://x.test/a.json"
    ∃ document node found, document ∈ resolver.store.documents ∧ document.Within node ∧
      node.key? = some (1, "/Pet/Other") ∧ resolver.baseOf node = "https://x.test/pet.json" ∧
      resolver.resolveReference ("#" ++ "name") (resolver.baseOf node) [] = some found ∧
      found.key? = some (0, "/Pet/Name") ∧
      resolver.baseOf found = "https://x.test/pet.json" := by
  intro resolver
  have hplain : ∀ document ∈ resolver.store.documents,
      '#' ∉ document.document.retrievalUri.toList := by decide +kernel
  have hrun : ∃ document ∈ resolver.store.documents, ∃ parent ∈ document.children,
      ∃ node ∈ parent.children, node.key? = some (1, "/Pet/Other") ∧
        resolver.baseOf node = "https://x.test/pet.json" ∧
        (resolver.store.provenance? node).isSome ∧
        node.string? "$dynamicAnchor" = some "name" := by decide +kernel
  obtain ⟨document, hdocument, parent, hparent, node, hnode, hkey, hbase, hindexed, hanchor⟩ := hrun
  have hwithin : document.Within node := .child (.child .root hparent) hnode
  obtain ⟨provenance, hprovenance⟩ := Option.isSome_iff_exists.mp hindexed
  obtain ⟨hsound, hcomplete, hlogical⟩ := resolveReference_own_anchor _ resolver rfl hplain node
    provenance hprovenance "name" (by decide) (by decide) (by decide)
  have hself : (resolver.store.get? "https://x.test/pet.json").all
      fun held => (held.string? "$self").isNone := by decide +kernel
  have hown : resolver.logicalBase (resolver.baseOf node) = resolver.baseOf node := by
    refine hlogical fun held hheld => ?_
    rw [hbase] at hheld
    simpa [hheld] using hself
  obtain ⟨found, hfound⟩ := Option.isSome_iff_exists.mp (hcomplete document hdocument node hwithin
    hown.symm ⟨"$dynamicAnchor", by decide, hanchor⟩)
  obtain ⟨-, -, -, -, -, hunder, -⟩ := hsound found hfound
  have hfirst : (resolver.resolveReference ("#" ++ "name") "https://x.test/pet.json" []).map
      Node.key? = some (some (0, "/Pet/Name")) := by decide +kernel
  rw [← hbase, hfound] at hfirst
  exact ⟨document, node, found, hdocument, hwithin, hkey, hbase, hfound, Option.some.inj hfirst,
    (hunder.trans hown).trans hbase⟩

/-- The document has no `$self`, but a resource in it has one that names another resource:
the anchor of the first is missed from within it, and the anchor of the second is found. -/
theorem exists_anchor_elsewhere :
    let uri := "https://x.test/a.json"
    let resolver := Resolver.new (.ofDocuments [(uri, .object
      [("Pet", .object [("$id", .string "pet.json"), ("$self", .string "cat.json"),
          ("Name", .object [("$anchor", .string "name")])]),
        ("Cat", .object [("$id", .string "cat.json"),
          ("Lives", .object [("$anchor", .string "lives")])])])]) uri
    (∀ document ∈ resolver.store.documents,
      document.document.retrievalUri = uri ∧ document.string? "$self" = none) ∧
    ∃ root node found, resolver.store.get? uri = some root ∧
      (root.step "Pet").step "Name" = node ∧ node.string? "$anchor" = some "name" ∧
      resolver.store.provenance? node = some ⟨"https://x.test/pet.json", uri⟩ ∧
      resolver.resolveReference ("#" ++ "name") (resolver.baseOf node) [] = none ∧
      resolver.resolveReference ("#" ++ "lives") (resolver.baseOf node) [] = some found ∧
      resolver.baseOf found = "https://x.test/cat.json" := by
  intro uri resolver
  refine ⟨by decide +kernel, ?_⟩
  have hrun : (resolver.store.get? uri).bind (fun root =>
      let node := (root.step "Pet").step "Name"
      (resolver.resolveReference ("#" ++ "lives") (resolver.baseOf node) []).map fun found =>
        (node.string? "$anchor", resolver.store.provenance? node,
          (resolver.resolveReference ("#" ++ "name") (resolver.baseOf node) []).isNone,
          resolver.baseOf found)) =
      some (some "name", some ⟨"https://x.test/pet.json", uri⟩, true,
        "https://x.test/cat.json") := by
    decide +kernel
  obtain ⟨root, hroot, hnode⟩ := Option.bind_eq_some_iff.mp hrun
  obtain ⟨found, hfound, hvalues⟩ := Option.map_eq_some_iff.mp hnode
  simp only [Prod.mk.injEq, Option.isNone_iff_eq_none] at hvalues
  obtain ⟨hanchor, hindexed, hmissed, hbase⟩ := hvalues
  exact ⟨root, _, found, hroot, rfl, hanchor, hindexed, hmissed, hfound, hbase⟩

end Resolver

end SpecForm
