import SpecForm.Json.Pointer

/-!
# Documents and their nodes

A node is a place in a document, named by a JSON Pointer.  A document that was
loaded has a number, and its nodes have keys.  A changed copy of a node keeps the
key of the node it was made from, so that what is known about the node also
holds of the copy; any other document that was not loaded has no keys.
-/

namespace SpecForm

abbrev Key := Nat × String

inductive Identity where
  | loaded (id : Nat)
  | copyOf (key : Key)
  | detached
  deriving DecidableEq, Repr, Inhabited

/-- `mark` is the number under which a store keeps a document that was not
loaded. -/
structure Document where
  identity : Identity
  mark : Option Nat
  retrievalUri : String
  root : Json
  deriving Inhabited

structure Node where
  document : Document
  pointer : String
  deriving Inhabited

namespace Document

def ofValue (root : Json) : Document := ⟨.detached, none, "", root⟩

/-- Whether both are one document, not merely two with equal contents. -/
def same (a b : Document) : Bool :=
  match a.identity, b.identity with
  | .loaded i, .loaded j => i = j
  | .loaded _, _ | _, .loaded _ => false
  | _, _ => a.mark.isSome && a.mark = b.mark

end Document

namespace Node

def rootOf (document : Document) : Node := ⟨document, ""⟩

def detached (value : Json) : Node := rootOf (.ofValue value)

/-- The value at the node; `null` if the pointer names nothing. -/
def value (node : Node) : Json :=
  (Json.Pointer.eval? node.pointer node.document.root).getD .null

def key? (node : Node) : Option Key :=
  match node.document.identity with
  | .loaded id => some (id, node.pointer)
  | .copyOf (id, base) => some (id, base ++ node.pointer)
  | .detached => none

def same (a b : Node) : Bool := a.document.same b.document && a.pointer = b.pointer

def withValue (node : Node) (value : Json) : Node :=
  let identity := match node.key? with
    | some key => .copyOf key
    | none => .detached
  rootOf ⟨identity, none, node.document.retrievalUri, value⟩

def members (node : Node) : List (String × Json) := (node.value.asObject?).getD []

def isObject (node : Node) : Bool := node.value.isObject

def has (node : Node) (name : String) : Bool := (node.value.member? name).isSome

def string? (node : Node) (name : String) : Option String := node.value.stringMember? name

/-! ## Steps -/

def step (node : Node) (token : String) : Node :=
  ⟨node.document, Json.Pointer.child node.pointer token⟩

def member? (node : Node) (name : String) : Option Node :=
  if node.has name then some (node.step name) else none

/-- The member or item that a token names.  An index of an array may have a sign
and leading zeros, which stay in the pointer. -/
def child? (node : Node) (token : String) : Option Node :=
  match node.value with
  | .object _ => node.member? token
  | .array items =>
      match Json.Pointer.looseIndex? token with
      | some index => if index < items.length then some (node.step token) else none
      | none => none
  | _ => none

def entries (node : Node) : List (String × Node) :=
  (Json.names node.members).map fun name => (name, node.step name)

def items (node : Node) : List Node :=
  match node.value with
  | .array values => (List.range values.length).map fun i => node.step (toString i)
  | _ => []

def children (node : Node) : List Node :=
  match node.value with
  | .object _ => node.entries.map Prod.snd
  | .array _ => node.items
  | _ => []

def follow? (node : Node) : List String → Option Node
  | [] => some node
  | token :: rest => (node.child? token).bind (follow? · rest)

theorem value_step (node : Node) (token : String) :
    (node.step token).value = (Json.Pointer.step? node.value token).getD .null := by
  simp only [value, step, Json.Pointer.eval?_child]
  cases Json.Pointer.eval? node.pointer node.document.root <;> rfl

theorem children_of_object {node : Node} {members : List (String × Json)}
    (h : node.value = .object members) :
    node.children = (Json.names members).map node.step := by
  simp [children, entries, Node.members, h, Json.asObject?, Function.comp_def]

theorem step_mem_children {node : Node} {members : List (String × Json)} {name : String}
    (h : node.value = .object members) (hname : name ∈ Json.names members) :
    node.step name ∈ node.children := by
  rw [children_of_object h]
  exact List.mem_map_of_mem hname

theorem children_of_array {node : Node} {items : List Json} (h : node.value = .array items) :
    node.children = (List.range items.length).map fun i => node.step (toString i) := by
  simp [children, Node.items, h]

theorem size_child_lt {node child : Node} (h : child ∈ node.children) :
    child.value.size < node.value.size := by
  match hv : node.value with
  | .object members =>
      rw [children_of_object hv, List.mem_map] at h
      obtain ⟨name, hname, rfl⟩ := h
      obtain ⟨value, hlookup⟩ := Json.mem_names.mp hname
      rw [value_step, hv, Json.Pointer.step?, hlookup]
      exact Json.size_lt_of_lookup hlookup
  | .array items =>
      rw [children_of_array hv, List.mem_map] at h
      obtain ⟨i, hi, rfl⟩ := h
      rw [List.mem_range] at hi
      have hget : items[i]? = some items[i] := List.getElem?_eq_getElem hi
      rw [value_step, hv, Json.Pointer.step?, Json.Pointer.strictIndex?_toString, Option.bind_some,
        hget]
      exact Json.size_lt_of_getElem? hget
  | .null | .bool _ | .int _ | .float _ | .string _ => simp [children, hv] at h

def nodes (node : Node) : List Node :=
  node :: node.children.attach.flatMap fun ⟨child, _⟩ => child.nodes
termination_by node.value.size
decreasing_by exact size_child_lt ‹_›

theorem nodes_eq (node : Node) :
    node.nodes = node :: node.children.flatMap fun child => child.nodes := by
  rw [nodes]
  simp

/-! ## References -/

/-- `lexical` references are read where they stand; `dynamic` ones may be
redirected by the references that led to them. -/
inductive RefKind where
  | lexical | dynamic
  deriving DecidableEq, Repr

inductive Role where
  | plain
  | broken
  | reference (text : String) (kind : RefKind)
  deriving DecidableEq, Repr

/-- What a node is to the one who follows references; `$ref` goes before
`$dynamicRef`, and only a string refers to anything. -/
def role (node : Node) : Role :=
  let read (target : Json) (kind : RefKind) : Role :=
    match target with
    | .string text => .reference text kind
    | _ => .broken
  match node.value.member? "$ref" with
  | some target => read target .lexical
  | none =>
      match node.value.member? "$dynamicRef" with
      | some target => read target .dynamic
      | none => .plain

def isReference (node : Node) : Bool := node.has "$ref" || node.has "$dynamicRef"

theorem exists_keyword_of_role {node : Node} {text : String} {kind : RefKind}
    (h : node.role = .reference text kind) :
    ∃ keyword ∈ ["$ref", "$dynamicRef"], node.value.member? keyword = some (.string text) := by
  have hread : ∀ {target : Json} {read : RefKind},
      (match target with
        | .string text => Role.reference text read
        | _ => .broken) = .reference text kind → target = .string text := by
    intro target read h
    split at h <;> simp_all
  unfold role at h
  dsimp only at h
  split at h
  · rename_i target hmember
    exact ⟨"$ref", by simp, hread h ▸ hmember⟩
  · split at h
    · rename_i target hmember
      exact ⟨"$dynamicRef", by simp, hread h ▸ hmember⟩
    · cases h

/-- A `summary` or `description` beside a reference replaces the target's own. -/
def overlay (reference target : Node) : Node :=
  let put (name : String) (members : List (String × Json)) : List (String × Json) :=
    match reference.string? name with
    | some text => Json.setMember name (.string text) members
    | none => members
  if (reference.string? "summary").isNone && (reference.string? "description").isNone then target
  else match target.value with
    | .object members =>
        target.withValue (.object (put "description" (put "summary" members)))
    | _ => target

end Node

end SpecForm
