import SpecForm.Proofs.Form.Inheritance
import SpecForm.Proofs.Reference.Triples
import SpecForm.Proofs.Resolve.InPlace

/-!
# Schemas by name

A schema of the entry document is looked up by name over a reference to its pointer.  The
pointer stands in the reference as it is, without being percent-encoded, and is decoded where
the reference is read.  So the lookup comes to the schema exactly if there is nothing in the
name that decoding changes; and otherwise to what the decoded pointer names.
-/

namespace SpecForm

namespace Dialect

open Json.Pointer Text.Percent

theorem tokens_schemaPointer (dialect : Dialect) (name : String) :
    tokens (dialect.schemaPointer name) = dialect.schemasPath ++ [name] :=
  tokens_ofTokens _

theorem isPointer_schemaPointer (dialect : Dialect) (name : String) :
    isPointer (dialect.schemaPointer name) := by
  unfold schemaPointer
  cases dialect <;> exact isPointer_ofTokens_cons _ _

theorem hasTriple_schemaPointer (dialect : Dialect) (name : String) :
    hasTriple (dialect.schemaPointer name).toList = hasTriple name.toList := by
  have hpath : ∀ token ∈ dialect.schemasPath, hasTriple token.toList = false := by
    cases dialect <;> decide
  rw [schemaPointer, hasTriple_ofTokens, List.any_append, List.any_eq_false.mpr (by simpa using hpath)]
  simp

end Dialect

namespace Node

variable {node last : Node} {tokens : List String}

theorem pointer_of_follow? (h : node.follow? tokens = some last) :
    last.pointer = node.pointer ++ Json.Pointer.ofTokens tokens := by
  induction tokens generalizing node with
  | nil =>
      obtain rfl : node = last := by simpa [follow?] using h
      simp [Json.Pointer.ofTokens]
  | cons token rest ih =>
      obtain ⟨next, hnext, hrest⟩ := Option.bind_eq_some_iff.mp h
      rw [ih hrest, eq_step_of_child? hnext, step_pointer_append]

theorem child?_of_member? {child : Node} {name : String} (h : node.member? name = some child) :
    node.child? name = some child := by
  have hobject := isObject_of_has (member?_eq_some_iff.mp h).1
  unfold child?
  cases hvalue : node.value with
  | object members => exact h
  | _ => simp [isObject, hvalue, Json.isObject, Json.asObject?] at hobject

theorem follow?_of_foldlM_member? {names : List String}
    (h : names.foldlM member? node = some last) : node.follow? names = some last := by
  induction names generalizing node with
  | nil => exact h
  | cons name names ih =>
      obtain ⟨next, hnext, hrest⟩ := Option.bind_eq_some_iff.mp h
      rw [follow?, child?_of_member? hnext, Option.bind_some, ih hrest]

theorem follow?_of_schemas? {schemas schema : Node} {name : String}
    (hschemas : node.schemas? = some schemas) (hschema : schemas.member? name = some schema) :
    node.follow? ((Dialect.detect node.value).schemasPath ++ [name]) = some schema := by
  rw [follow?_append, follow?_of_foldlM_member? hschemas, Option.bind_some, follow?,
    child?_of_member? hschema]
  rfl

end Node

namespace Resolver

variable {resolver : Resolver} {document found : Node}
  {text base pointer target fragment : String}

theorem Names.resolveFragment_eq (h : resolver.Names ("#" ++ pointer) resolver.entry target fragment)
    (hpointer : Json.Pointer.isPointer fragment) :
    resolver.resolveFragment pointer =
      resolver.resolveReference ("#" ++ pointer) resolver.entry [] := by
  have hhop : resolver.hop ("#" ++ pointer) .lexical resolver.entry [] =
      resolver.hop ("#" ++ pointer) .dynamic resolver.entry [] := by
    rw [hop_eq, hop_eq, h.mapped?_of_not_anchor (by simp), h.mapped?_pointer hpointer,
      Reference.withFragment_of_isPointer hpointer]
  rw [resolveFragment, resolveReference, chase.eq_def, hhop, ← chase.eq_def]

theorem Names.links_of_entry (h : resolver.Names text resolver.entry resolver.entry fragment)
    (hpointer : Json.Pointer.isPointer fragment)
    (hunmapped : resolver.store.get? (resolver.entry ++ "#" ++ fragment) = none)
    (hdocument : resolver.store.get? resolver.entry = some document)
    (hfound : document.follow? (Json.Pointer.tokens fragment) = some found)
    (hreference : found.isReference) :
    resolver.Links (.ofReference text, resolver.entry) (resolver.entry ++ "#" ++ fragment)
      (found, resolver.baseOf found) := by
  obtain ⟨htarget, rfl⟩ := h
  exact .intro (Node.role_ofReference text) htarget hpointer hunmapped hdocument hfound hreference

theorem Names.resolveReference_of_follow?_eq_none
    (h : resolver.Names text base target fragment) (hpointer : Json.Pointer.isPointer fragment)
    (hunmapped : resolver.store.get? (target ++ "#" ++ fragment) = none)
    (hdocument : resolver.store.get? target = some document)
    (hfound : document.follow? (Json.Pointer.tokens fragment) = none) (scope : List String) :
    resolver.resolveReference text base scope = none := by
  have hhop := h.hop_pointer hpointer hunmapped hdocument scope
  rw [hfound, Option.elim_none] at hhop
  have hmove : resolver.move (.ofReference text) base scope = .halt none := by
    simp [move, hhop]
  rw [resolveReference_eq_follow, follow_of_halt hmove]

theorem resolveFragment_of_entry (hhash : '#' ∉ resolver.entry.toList)
    (hdocument : resolver.store.get? resolver.entry = some document)
    (hself : document.string? "$self" = none) (hpointer : Json.Pointer.isPointer pointer)
    (hunmapped : ∀ rest, resolver.store.get? (resolver.entry ++ "#/" ++ rest) = none) :
    let read := Reference.decodeFragment pointer
    resolver.resolveFragment pointer =
      (document.follow? (Json.Pointer.tokens read)).bind fun found =>
        resolver.resolveInScope found [resolver.entry ++ "#" ++ read] := by
  intro read
  have hread : Json.Pointer.isPointer read := Reference.isPointer_decodeFragment hpointer
  have hkey : resolver.store.get? (resolver.entry ++ "#" ++ read) = none := by
    obtain ⟨rest, hrest⟩ := Json.Pointer.isPointer_iff.mp hread
    have hslash : resolver.entry ++ "#" ++ read = resolver.entry ++ "#/" ++ String.ofList rest := by
      simp [← String.toList_inj, hrest]
    rw [hslash]
    exact hunmapped _
  have hnames := names_own hhash hdocument hself pointer
  rw [hnames.resolveFragment_eq hread]
  cases hfound : document.follow? (Json.Pointer.tokens read) with
  | none =>
      rw [Option.bind_none]
      exact hnames.resolveReference_of_follow?_eq_none hread hkey hdocument hfound []
  | some found =>
      rw [Option.bind_some]
      by_cases hreference : found.isReference
      · exact resolveReference_of_links
          (hnames.links_of_entry hread hkey hdocument hfound hreference) List.not_mem_nil
      · rw [hnames.resolveReference_of_follow? hread hkey hdocument hfound hreference,
          resolveInScope_of_not_isReference hreference]

end Resolver

namespace Form

open Json.Pointer Text.Percent

variable {resolver : Resolver} {schema : Node}

namespace Resource

theorem ofComponent_eq (resolver : Resolver) (dialect : Dialect) (name : String) :
    ofComponent resolver dialect name =
      (resolver.resolveFragment (dialect.schemaPointer name)).elim (.error (.schemaNotFound name))
        fun found => .ok (ofSchema resolver name found) := by
  unfold ofComponent
  cases resolver.resolveFragment (dialect.schemaPointer name) <;> rfl

theorem ofSchema_of_not_isReference (h : ¬schema.isReference) (name : String) :
    ofSchema resolver name schema = ⟨name, mergedProperties resolver schema, some schema⟩ := by
  rw [ofSchema, Resolver.resolve, Resolver.resolveInScope_of_not_isReference h]
  dsimp only [Option.elim_some]

end Resource

/--
Let a document have no `$self` and be read from the URI of the entry, without a fragment, and
let nothing be mapped under a pointer into it.  Let one of its schemas have a name and be no
reference.  The pointer of the schema leads to it exactly if decoding leaves the name alone: if
no `%` in the name starts a triple, or if what it decodes to is not UTF-8.  Then the resource
of that name is that of the schema, and merging its properties ends, if every schema that is
mapped has a key.  Whatever the name is, the lookup gives what the decoded pointer leads to.
-/
theorem ofComponent_of_schemas? (calls : List Store.Call) (resolver : Resolver)
    (hstore : resolver.store = .ofCalls calls) (document : Node)
    (hdocument : document ∈ resolver.store.documents) (name : String) (schemas schema : Node) :
    let uri := document.document.retrievalUri
    let dialect := Dialect.detect document.value
    let pointer := dialect.schemaPointer name
    let read := Reference.decodeFragment pointer
    let place := document.follow? (tokens read)
    let answer := Resource.ofComponent resolver dialect name
    resolver.entry = uri → '#' ∉ uri.toList → document.string? "$self" = none →
    (∀ rest, resolver.store.get? (uri ++ "#/" ++ rest) = none) →
    document.schemas? = some schemas → schemas.member? name = some schema →
    ¬schema.isReference →
    (place = some schema ↔ ¬hasTriple name.toList ∨ decodeText? pointer.toList = none) ∧
    (place = some schema →
      answer = .ok ⟨name, mergedProperties resolver schema, some schema⟩ ∧
      ((∀ uri node, resolver.store.get? uri = some node → node.key? ≠ none) →
        ∃ n, ((Merge.step resolver)^[n] (Merge.start schema)).isDone ∧
          mergedProperties resolver schema =
            ((Merge.step resolver)^[n] (Merge.start schema)).result)) ∧
    answer = (place.bind fun found => resolver.resolveInScope found [uri ++ "#" ++ read]).elim
      (.error (.schemaNotFound name)) fun found => .ok (.ofSchema resolver name found) := by
  intro uri dialect pointer read place answer hentry hhash hself hunmapped hschemas hschema hplain
  have horderly : resolver.store.Orderly := hstore ▸ Store.orderly_ofCalls calls
  have huri : resolver.store.get? uri = some document := horderly.found hdocument
  have hnamed : document.follow? (tokens pointer) = some schema := by
    rw [dialect.tokens_schemaPointer]
    exact Node.follow?_of_schemas? hschemas hschema
  have hlookup : resolver.resolveFragment pointer =
      place.bind fun found => resolver.resolveInScope found [uri ++ "#" ++ read] := by
    rw [← hentry] at hhash huri hunmapped ⊢
    exact Resolver.resolveFragment_of_entry hhash huri hself (dialect.isPointer_schemaPointer name)
      hunmapped
  have hanswer : answer = (resolver.resolveFragment pointer).elim (.error (.schemaNotFound name))
      fun found => .ok (.ofSchema resolver name found) :=
    Resource.ofComponent_eq resolver dialect name
  have hplace : place = some schema ↔ read = pointer := by
    constructor
    · intro hfound
      have hown := (Node.pointer_of_follow? hnamed).symm.trans (Node.pointer_of_follow? hfound)
      rw [append_ofTokens_inj] at hown
      exact Reference.tokens_decodeFragment_eq_iff.mp hown.symm
    · intro hread
      rw [← hnamed, ← hread]
  refine ⟨?_, fun hfound => ⟨?_, fun hmapped => ?_⟩, ?_⟩
  · rw [hplace, Reference.decodeFragment_eq_self_iff, dialect.hasTriple_schemaPointer]
  · rw [hanswer, hlookup, hfound, Option.bind_some,
      Resolver.resolveInScope_of_not_isReference hplain, Option.elim_some,
      Resource.ofSchema_of_not_isReference hplain]
  · exact isDone_of_passes (Passes.keyed hmapped) id
      (key?_of_follow? (hmapped uri document huri) hnamed)
  · rw [hanswer, hlookup]

def pantry (name : String) : Json :=
  .object [("openapi", .string "3.1.0"), ("components", .object
    [("schemas", .object [(name, .object [("type", .string "string")])])])]

def pantryRoot (uri name : String) : Node := Store.nextRoot .empty uri (pantry name)

def pantrySchemas (uri name : String) : Node :=
  ((pantryRoot uri name).step "components").step "schemas"

theorem pantryRoot_mem (uri name : String) :
    pantryRoot uri name ∈ (Store.ofCalls [.register uri (pantry name)]).documents :=
  (Store.mem_documents_register rfl).mpr (.inr rfl)

theorem detect_pantryRoot (uri name : String) :
    Dialect.detect (pantryRoot uri name).value = .openApi31 := rfl

theorem schemas?_pantryRoot (uri name : String) :
    (pantryRoot uri name).schemas? = some (pantrySchemas uri name) := by
  have hcomponents : (pantryRoot uri name).has "components" := rfl
  have hschemas : ((pantryRoot uri name).step "components").has "schemas" := by
    rw [Node.has, Node.value_step]
    rfl
  rw [Node.schemas?, detect_pantryRoot]
  simp [Dialect.schemasPath, Node.member?, hcomponents, hschemas, pantrySchemas]

theorem value_pantrySchemas (uri name : String) :
    (pantrySchemas uri name).value = .object [(name, .object [("type", .string "string")])] := by
  rw [pantrySchemas, Node.value_step, Node.value_step]
  rfl

theorem member?_pantrySchemas (uri name : String) :
    (pantrySchemas uri name).member? name = some ((pantrySchemas uri name).step name) := by
  simp [Node.member?, Node.has, value_pantrySchemas, Json.member?]

theorem not_isReference_pantry (uri name : String) :
    ¬((pantrySchemas uri name).step name).isReference := by
  simp [Node.isReference, Node.has, Node.value_step, value_pantrySchemas, Json.member?,
    Json.Pointer.step?]

theorem get?_of_keys {store : Store} {uri : String} (h : store.entries.map Prod.fst = [uri])
    (rest : String) : store.get? (uri ++ "#/" ++ rest) = none := by
  refine Option.eq_none_iff_forall_ne_some.mpr fun node hget => ?_
  have hkey : uri ++ "#/" ++ rest ∈ store.entries.map Prod.fst :=
    List.mem_map_of_mem (Store.mem_entries_of_get? hget)
  rw [h, List.mem_singleton, String.append_assoc] at hkey
  have hlength := congrArg String.length hkey
  simp at hlength

theorem ofComponent_of_schemas?_signs :
    let uri := "https://x.test/api.json"
    let name := "a/b~c#100%"
    let resolver := Resolver.new (.ofCalls [.register uri (pantry name)]) uri
    let schema := (pantrySchemas uri name).step name
    Resource.ofComponent resolver .openApi31 name =
      .ok ⟨name, mergedProperties resolver schema, some schema⟩ := by
  intro uri name resolver schema
  obtain ⟨hplace, hfound, -⟩ := ofComponent_of_schemas? _ resolver rfl (pantryRoot uri name)
    (pantryRoot_mem uri name) name _ schema rfl (by decide) (by decide +kernel)
    (get?_of_keys (by decide +kernel)) (schemas?_pantryRoot uri name)
    (member?_pantrySchemas uri name) (not_isReference_pantry uri name)
  rw [detect_pantryRoot] at hplace hfound
  exact (hfound (hplace.mpr (.inl (by decide)))).1

/-- A name in which `%` is followed by two digits is decoded, and then names nothing. -/
theorem exists_schema_without_resource :
    let uri := "https://x.test/api.json"
    let name := "a%20b"
    let resolver := Resolver.new (.ofCalls [.register uri (pantry name)]) uri
    ∃ document ∈ resolver.store.documents, document.document.retrievalUri = uri ∧
      '#' ∉ uri.toList ∧ document.string? "$self" = none ∧
      (∀ rest, resolver.store.get? (uri ++ "#/" ++ rest) = none) ∧
      (∃ schemas schema, document.schemas? = some schemas ∧
        schemas.member? name = some schema ∧ ¬schema.isReference) ∧
      Resource.ofComponent resolver (Dialect.detect document.value) name =
        .error (.schemaNotFound name) := by
  intro uri name resolver
  have hlookup : resolver.resolveFragment (Dialect.openApi31.schemaPointer name) = none :=
    Option.isNone_iff_eq_none.mp (by decide +kernel)
  refine ⟨pantryRoot uri name, pantryRoot_mem uri name, rfl, by decide, by decide +kernel,
    get?_of_keys (by decide +kernel), ⟨_, _, schemas?_pantryRoot uri name,
      member?_pantrySchemas uri name, not_isReference_pantry uri name⟩, ?_⟩
  rw [detect_pantryRoot, Resource.ofComponent_eq, hlookup]
  rfl

end Form

end SpecForm
