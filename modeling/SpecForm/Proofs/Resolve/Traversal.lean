import SpecForm.Proofs.Resolve.Base

/-!
# Pointers and traversal

A value inside a document is reached over the names of members and the places of
items.  The pointer made of them, in whatever encoding it stands in a reference, leads
to the same place, and the value that is found there is the one that was reached.
-/

namespace SpecForm

/-! ## Traversal -/

namespace Json

inductive Step where
  | member (name : String)
  | item (index : Nat)
  deriving DecidableEq, Repr

namespace Step

def token : Step → String
  | .member name => name
  | .item index => toString index

def next? (value : Json) : Step → Option Json
  | .member name => value.member? name
  | .item index => value.asArray?.bind fun items => items[index]?

end Step

def at? (value : Json) : List Step → Option Json
  | [] => some value
  | step :: rest => (step.next? value).bind fun next => next.at? rest

end Json

namespace Node

variable {root node : Node} {step : Json.Step} {path : List Json.Step} {value next : Json}

theorem mem_children_of_next? (h : step.next? node.value = some next) :
    node.step step.token ∈ node.children ∧ (node.step step.token).value = next := by
  cases step with
  | member name =>
      cases hv : node.value with
      | object members =>
          have hlookup : members.lookup name = some next := by
            simpa [Json.Step.next?, hv, Json.member?] using h
          constructor
          · exact step_mem_children hv (Json.mem_names.mpr ⟨next, hlookup⟩)
          · rw [value_step, hv, Json.Step.token, Json.Pointer.step?, hlookup, Option.getD_some]
      | _ => simp [Json.Step.next?, hv, Json.member?] at h
  | item index =>
      cases hv : node.value with
      | array items =>
          have hget : items[index]? = some next := by
            simpa [Json.Step.next?, hv, Json.asArray?] using h
          obtain ⟨hindex, -⟩ := List.getElem?_eq_some_iff.mp hget
          constructor
          · rw [children_of_array hv]
            exact List.mem_map_of_mem (List.mem_range.mpr hindex)
          · rw [value_step, hv, Json.Step.token, Json.Pointer.step?,
              Json.Pointer.strictIndex?_toString, Option.bind_some, hget, Option.getD_some]
      | _ => simp [Json.Step.next?, hv, Json.asArray?] at h

theorem within_of_at? (hnode : root.Within node) (h : node.value.at? path = some value) :
    let found : Node :=
      ⟨node.document, node.pointer ++ Json.Pointer.ofTokens (path.map Json.Step.token)⟩
    root.Within found ∧ found.value = value := by
  induction path generalizing node with
  | nil =>
      have hvalue : node.value = value := Option.some.inj h
      have hsame : (⟨node.document, node.pointer ++ Json.Pointer.ofTokens []⟩ : Node) = node := by
        simp [Json.Pointer.ofTokens]
      rw [List.map_nil, hsame]
      exact ⟨hnode, hvalue⟩
  | cons step rest ih =>
      obtain ⟨next, hstep, hrest⟩ := Option.bind_eq_some_iff.mp h
      obtain ⟨hchild, hnext⟩ := mem_children_of_next? hstep
      rw [List.map_cons, ← step_pointer_append]
      exact ih (.child hnode hchild) (hnext ▸ hrest)

end Node

namespace Resolver

variable {resolver : Resolver} {document node : Node} {text base target fragment : String}

/-! ## References into a document -/

theorem Names.resolveReference_of_follow? (h : resolver.Names text base target fragment)
    (hpointer : Json.Pointer.isPointer fragment)
    (hunmapped : resolver.store.get? (target ++ "#" ++ fragment) = none)
    (hdocument : resolver.store.get? target = some document)
    (hnode : document.follow? (Json.Pointer.tokens fragment) = some node)
    (hplain : ¬node.isReference) (scope : List String) :
    resolver.resolveReference text base scope = some node := by
  have hhop : resolver.hop text .dynamic base scope = .found node := by
    rw [h.hop_pointer hpointer hunmapped hdocument, hnode, Option.elim_some, if_neg hplain]
  have hmove : resolver.move (.ofReference text) base scope = .halt (some node) := by
    simp [move, hhop]
  rw [resolveReference_eq_follow, follow_of_halt hmove]

/--
Let a value be reached from the root of a document over members and items, whatever the
names of the members are, and let it be no reference.  Then a fragment that decodes to
the pointer of the value, under which nothing is mapped, names from anywhere in the
document and in every scope the node of that document with that pointer, and its value
is the one that was reached.
-/
theorem resolveReference_reached (documents : List (String × Json)) (resolver : Resolver)
    (hstore : resolver.store = .ofDocuments documents) (document : Node)
    (hdocument : document ∈ resolver.store.documents) (path : List Json.Step) (value : Json)
    (fragment : String) (scope : List String) :
    let uri := document.document.retrievalUri
    let pointer := Json.Pointer.ofTokens (path.map Json.Step.token)
    let node : Node := ⟨document.document, pointer⟩
    '#' ∉ uri.toList → document.string? "$self" = none →
    document.document.root.at? path = some value → ¬node.isReference →
    Reference.decodeFragment fragment = pointer →
    resolver.store.get? (uri ++ "#" ++ pointer) = none →
    resolver.resolveReference ("#" ++ fragment) uri scope = some node ∧ node.value = value := by
  intro uri pointer node hhash hself hreached hplain hfragment hunmapped
  have horderly : resolver.store.Orderly := hstore ▸ Store.Orderly.ofDocuments documents
  have hroot : document.pointer = "" := horderly.pointer_eq hdocument
  have huri : resolver.store.get? uri = some document := horderly.found hdocument
  have hnames : resolver.Names ("#" ++ fragment) uri uri pointer :=
    hfragment ▸ names_own hhash huri hself fragment
  have hvalue : document.value = document.document.root := by
    simp [Node.value, hroot, Json.Pointer.eval?]
  obtain ⟨hwithin, hfound⟩ : document.Within node ∧ node.value = value := by
    have hboth := Node.within_of_at? .root (hvalue ▸ hreached)
    rwa [hroot, String.empty_append] at hboth
  refine ⟨?_, hfound⟩
  cases path with
  | nil =>
      have hsame : node = document := congrArg (Node.mk document.document) hroot.symm
      rw [hsame]
      exact hnames.resolveReference_whole huri scope
  | cons step rest =>
      have hpointer : Json.Pointer.isPointer pointer :=
        Json.Pointer.isPointer_ofTokens_cons _ _
      exact hnames.resolveReference_of_follow? hpointer hunmapped huri
        (hwithin.follow?_tokens hroot) hplain scope

theorem resolveReference_reached_names :
    let uri := "https://x.test/pets.json"
    let root := Json.object [("a/b", .object [("", .array
      [.null, .object [("größe", .string "first"), ("~1", .object [("größe", .int 4)])]])])]
    let resolver := Resolver.new (.ofDocuments [(uri, root)]) uri
    let document := (Store.nextRoot .empty uri root).document
    let path : List Json.Step := [.member "a/b", .member "", .item 1, .member "~1", .member "größe"]
    Json.Pointer.ofTokens (path.map Json.Step.token) = "/a~1b//1/~01/größe" ∧
      resolver.resolveReference ("#" ++ "/a%7e1b//1/%7E01/gr%C3%B6%C3%9Fe") uri ["urn:other"] =
        some ⟨document, "/a~1b//1/~01/größe"⟩ ∧
      Node.value ⟨document, "/a~1b//1/~01/größe"⟩ = .int 4 := by
  intro uri root resolver document path
  have hpointer : Json.Pointer.ofTokens (path.map Json.Step.token) = "/a~1b//1/~01/größe" := by
    decide +kernel
  have hnamed := resolveReference_reached _ resolver rfl (Store.nextRoot .empty uri root)
    (Store.nextRoot_mem_ofDocuments uri root []) path (.int 4)
    "/a%7e1b//1/%7E01/gr%C3%B6%C3%9Fe" ["urn:other"] (by decide) (by decide +kernel) rfl
    (by decide +kernel) (by decide +kernel) (Option.isNone_iff_eq_none.mp (by decide +kernel))
  rw [hpointer] at hnamed
  exact ⟨hpointer, hnamed⟩

end Resolver

end SpecForm
