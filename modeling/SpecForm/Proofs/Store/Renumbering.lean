import SpecForm.Proofs.Store.Mappings

/-!
# Documents under other numbers

The number of a document says when it was loaded, and nothing that is read in the document
depends on it.  Under another number a document has the same nodes, each with the same value,
the same base and the same URIs; only the keys of the nodes change with the number.
-/

namespace SpecForm

def Identity.renumbered (number : Nat → Nat) : Identity → Identity
  | .loaded id => .loaded (number id)
  | .copyOf (id, base) => .copyOf (number id, base)
  | .detached => .detached

def Document.renumbered (number : Nat → Nat) (document : Document) : Document :=
  { document with identity := document.identity.renumbered number }

def Key.renumbered (number : Nat → Nat) (key : Key) : Key := (number key.1, key.2)

theorem Key.renumbered_injective {number : Nat → Nat} (h : number.Injective) :
    (Key.renumbered number).Injective := by
  intro first second hsame
  obtain ⟨hid, hpointer⟩ := Prod.mk.inj hsame
  exact Prod.ext (h hid) hpointer

namespace Node

def renumbered (number : Nat → Nat) (node : Node) : Node :=
  { node with document := node.document.renumbered number }

variable {number : Nat → Nat}

@[simp] theorem retrievalUri_renumbered (node : Node) :
    (node.renumbered number).document.retrievalUri = node.document.retrievalUri := rfl

@[simp] theorem pointer_renumbered (node : Node) :
    (node.renumbered number).pointer = node.pointer := rfl

@[simp] theorem value_renumbered (node : Node) : (node.renumbered number).value = node.value := rfl

@[simp] theorem has_renumbered (node : Node) (name : String) :
    (node.renumbered number).has name = node.has name := rfl

@[simp] theorem string?_renumbered (node : Node) (name : String) :
    (node.renumbered number).string? name = node.string? name := rfl

@[simp] theorem isObject_renumbered (node : Node) :
    (node.renumbered number).isObject = node.isObject := rfl

@[simp] theorem isReference_renumbered (node : Node) :
    (node.renumbered number).isReference = node.isReference := rfl

@[simp] theorem role_renumbered (node : Node) : (node.renumbered number).role = node.role := rfl

@[simp] theorem step_renumbered (node : Node) (token : String) :
    (node.renumbered number).step token = (node.step token).renumbered number := rfl

theorem key?_renumbered (node : Node) :
    (node.renumbered number).key? = node.key?.map (Key.renumbered number) := by
  obtain ⟨⟨identity, mark, uri, root⟩, pointer⟩ := node
  cases identity <;> rfl

@[simp] theorem renumbered_id (node : Node) : node.renumbered id = node := by
  obtain ⟨⟨identity, mark, uri, root⟩, pointer⟩ := node
  cases identity <;> rfl

theorem renumbered_of_loaded {node : Node} {i : Nat} (h : node.document.identity = .loaded i)
    (hfixed : number i = i) : node.renumbered number = node := by
  obtain ⟨⟨identity, mark, uri, root⟩, pointer⟩ := node
  obtain rfl : identity = .loaded i := h
  simp only [renumbered, Document.renumbered, Identity.renumbered, hfixed]

/-! ## Steps -/

theorem child?_renumbered (node : Node) (token : String) :
    (node.renumbered number).child? token = (node.child? token).map (renumbered number) := by
  unfold child? member?
  rw [value_renumbered, has_renumbered, step_renumbered]
  cases node.value with
  | object _ => dsimp only; cases node.has token <;> rfl
  | array items =>
      dsimp only
      cases Json.Pointer.looseIndex? token with
      | none => rfl
      | some index => dsimp only; split <;> rfl
  | _ => rfl

theorem follow?_renumbered (node : Node) (tokens : List String) :
    (node.renumbered number).follow? tokens = (node.follow? tokens).map (renumbered number) := by
  induction tokens generalizing node with
  | nil => rfl
  | cons token rest ih =>
      rw [follow?, follow?, child?_renumbered]
      cases node.child? token with
      | none => rfl
      | some child => exact ih child

theorem children_renumbered (node : Node) :
    (node.renumbered number).children = node.children.map (renumbered number) := by
  unfold children entries items members
  simp only [value_renumbered]
  cases node.value with
  | object _ | array _ => simp [Function.comp_def]
  | _ => rfl

/-! ## The tree -/

def entryRenumbered (number : Nat → Nat) (entry : Node × String) : Node × String :=
  (entry.1.renumbered number, entry.2)

theorem tree_renumbered (node : Node) (outer : String) :
    (node.renumbered number).tree outer = (node.tree outer).map (entryRenumbered number) := by
  induction node, outer using tree.induct with
  | case1 node outer ih =>
      have hbelow : ∀ child ∈ node.children,
          (child.renumbered number).tree ((node.renumbered number).baseUnder outer) =
            (child.tree (node.baseUnder outer)).map (entryRenumbered number) :=
        fun child hchild => ih child hchild
      rw [tree_eq, tree_eq node, children_renumbered, List.flatMap_map, List.map_cons,
        List.map_flatMap, List.flatMap_congr hbelow]
      rfl

theorem objects_renumbered (node : Node) (outer : String) :
    (node.renumbered number).objects outer =
      (node.objects outer).map (entryRenumbered number) := by
  rw [objects, objects, tree_renumbered, List.filter_map]
  rfl

theorem declared_renumbered (node : Node) (outer : String) :
    (node.renumbered number).declared outer =
      (node.declared outer).map fun entry => (entry.1, entry.2.renumbered number) := by
  rw [declared, declared, List.map_map]
  rfl

/-! ## Notes -/

theorem withValue_renumbered (node : Node) (value : Json) :
    (node.renumbered number).withValue value = (node.withValue value).renumbered number := by
  obtain ⟨⟨identity, mark, uri, root⟩, pointer⟩ := node
  cases identity <;> rfl

theorem overlay_renumbered (reference target : Node) :
    (reference.renumbered number).overlay (target.renumbered number) =
      (reference.overlay target).renumbered number := by
  have hreference : (reference.renumbered number).overlay (target.renumbered number) =
      reference.overlay (target.renumbered number) := rfl
  rw [hreference]
  unfold overlay
  dsimp only
  split
  · rfl
  · rw [value_renumbered]
    cases target.value with
    | object members => exact withValue_renumbered _ _
    | _ => rfl

end Node

/-! ## What documents are mapped under -/

theorem lookup_map_snd {α β γ : Type} [BEq α] (f : β → γ) (entries : List (α × β)) (key : α) :
    (entries.map fun entry => (entry.1, f entry.2)).lookup key = (entries.lookup key).map f := by
  induction entries with
  | nil => rfl
  | cons entry rest ih =>
      rw [List.map_cons, List.lookup_cons, List.lookup_cons, ih]
      cases key == entry.1 <;> rfl

theorem lookup_map_fst {α β : Type} [BEq α] [LawfulBEq α] {f : α → α} (hf : f.Injective)
    (entries : List (α × β)) (key : α) :
    (entries.map fun entry => (f entry.1, entry.2)).lookup (f key) = entries.lookup key := by
  induction entries with
  | nil => rfl
  | cons entry rest ih =>
      have hsame : (f key == f entry.1) = (key == entry.1) := by
        rw [Bool.eq_iff_iff, beq_iff_eq, beq_iff_eq, hf.eq_iff]
      rw [List.map_cons, List.lookup_cons, List.lookup_cons, ih, hsame]

namespace Store

variable {number : Nat → Nat}

theorem mappings_renumbered (document : Node) :
    mappings (document.renumbered number) =
      (mappings document).map fun entry => (entry.1, entry.2.renumbered number) := by
  unfold mappings
  dsimp only
  rw [List.map_cons, List.map_cons, List.map_flatMap, Node.objects_renumbered, List.flatMap_map]
  simp only [Node.entryRenumbered, Node.declared_renumbered]
  rfl

theorem records_renumbered (document : Node) :
    records (document.renumbered number) =
      (records document).map fun entry => (entry.1.renumbered number, entry.2) := by
  unfold records recorded
  dsimp only
  rw [Node.objects_renumbered, List.filterMap_map, List.map_filterMap]
  refine List.filterMap_congr fun entry _ => ?_
  simp only [Function.comp_apply, Node.entryRenumbered, Node.key?_renumbered, Option.map_map]
  rfl

theorem lookup_mappings_renumbered (documents : List Node) (uri : String) :
    ((documents.map (Node.renumbered number)).flatMap mappings).lookup uri =
      ((documents.flatMap mappings).lookup uri).map (Node.renumbered number) := by
  rw [← lookup_map_snd, List.map_flatMap, List.flatMap_map]
  simp only [mappings_renumbered]

theorem lookup_records_renumbered (hnumber : number.Injective) (documents : List Node)
    (key : Key) :
    ((documents.map (Node.renumbered number)).flatMap records).lookup (key.renumbered number) =
      (documents.flatMap records).lookup key := by
  rw [← lookup_map_fst (Key.renumbered_injective hnumber) (documents.flatMap records),
    List.map_flatMap, List.flatMap_map]
  simp only [records_renumbered]

end Store

end SpecForm
