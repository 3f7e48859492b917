import SpecForm.Proofs.Resolve.InPlace

/-!
# Notes over a chain of references

A reference may have a `summary` and a `description` of its own, and lays them over what it
refers to.  Along a chain the first reference that has a note decides it, since the notes of
the last one are laid first.  Nothing else of the target changes: the copy has its key, and
whatever stands beneath it, apart from the notes, has the key, the value and the base that
it has beneath the target.
-/

namespace SpecForm

theorem Json.filter_setMember (kept : String → Bool) {name : String} (h : ¬kept name)
    (value : Json) (members : List (String × Json)) :
    (setMember name value members).filter (fun member => kept member.1) =
      members.filter fun member => kept member.1 := by
  induction members with
  | nil => simp [setMember, h]
  | cons entry rest ih =>
      obtain ⟨other, old⟩ := entry
      by_cases hname : other = name
      · subst hname
        simp [setMember, h]
      · simp only [setMember, if_neg hname, List.filter_cons, ih]

namespace Node

def noteNames : List String := ["summary", "description"]

variable {reference target node other : Node} {references : List Node} {name token : String}

/-! ## One reference -/

theorem overlay_of_not_isObject (h : ¬target.isObject) : reference.overlay target = target := by
  unfold overlay
  dsimp only
  split
  · rfl
  · split
    · rename_i members hvalue
      simp [isObject, hvalue, Json.isObject, Json.asObject?] at h
    · rfl

def noted (reference : Node) (members : List (String × Json)) : List (String × Json) :=
  noteNames.foldl (fun members name =>
    match reference.string? name with
    | some text => Json.setMember name (.string text) members
    | none => members) members

theorem value_overlay {members : List (String × Json)} (h : target.value = .object members) :
    (reference.overlay target).value = .object (reference.noted members) := by
  unfold overlay noted noteNames
  simp only [List.foldl_cons, List.foldl_nil]
  split
  · rename_i hnone
    rw [Bool.and_eq_true, Option.isNone_iff_eq_none, Option.isNone_iff_eq_none] at hnone
    rw [hnone.1, hnone.2, h]
  · rw [h]
    exact value_withValue _ _

theorem lookup_noted (members : List (String × Json)) (name : String) :
    (reference.noted members).lookup name =
      if name ∈ noteNames then
        ((reference.string? name).map Json.string).or (members.lookup name)
      else members.lookup name := by
  have hstep : ∀ (note : String) (members : List (String × Json)),
      (match reference.string? note with
        | some text => Json.setMember note (.string text) members
        | none => members).lookup name =
      if name = note then ((reference.string? name).map Json.string).or (members.lookup name)
      else members.lookup name := by
    intro note members
    by_cases hname : name = note
    · subst hname
      cases reference.string? name <;> simp [Json.lookup_setMember]
    · cases reference.string? note <;> simp [Json.lookup_setMember, hname]
  simp only [noted, noteNames, List.foldl_cons, List.foldl_nil, hstep, List.mem_cons,
    List.not_mem_nil, or_false]
  by_cases hfirst : name = "summary"
  · subst hfirst
    simp
  · simp [hfirst]

theorem filter_noted (members : List (String × Json)) :
    (reference.noted members).filter (fun member => member.1 ∉ noteNames) =
      members.filter fun member => member.1 ∉ noteNames := by
  have hstep : ∀ note ∈ noteNames, ∀ members : List (String × Json),
      (match reference.string? note with
        | some text => Json.setMember note (.string text) members
        | none => members).filter (fun member => member.1 ∉ noteNames) =
      members.filter fun member => member.1 ∉ noteNames := by
    intro note hnote members
    cases reference.string? note with
    | none => rfl
    | some text =>
        exact Json.filter_setMember (fun name => name ∉ noteNames) (by simpa using hnote) _ _
  rw [noted, noteNames, List.foldl_cons, List.foldl_cons, List.foldl_nil, ← noteNames,
    hstep _ (by decide), hstep _ (by decide)]

/-! ## A chain of references -/

/-- A target under the notes of all references that led to it, those of the last one first. -/
def underNotes (references : List Node) (target : Node) : Node := references.foldr overlay target

theorem isObject_iff : node.isObject ↔ ∃ members, node.value = .object members := by
  unfold isObject
  cases node.value <;> simp [Json.isObject, Json.asObject?]

theorem underNotes_of_not_isObject (h : ¬target.isObject) : underNotes references target = target := by
  induction references with
  | nil => rfl
  | cons reference rest ih =>
      have hrest : ¬(underNotes rest target).isObject := ih.symm ▸ h
      exact (overlay_of_not_isObject hrest).trans ih

theorem exists_value_underNotes (references : List Node) {members : List (String × Json)}
    (h : target.value = .object members) :
    ∃ noted, (underNotes references target).value = .object noted ∧
      noted.filter (fun member => member.1 ∉ noteNames) =
        members.filter (fun member => member.1 ∉ noteNames) ∧
      ∀ name, noted.lookup name =
        if name ∈ noteNames then
          ((references.findSome? (string? · name)).map Json.string).or (members.lookup name)
        else members.lookup name := by
  induction references with
  | nil => exact ⟨members, h, rfl, fun name => by simp⟩
  | cons reference rest ih =>
      obtain ⟨below, hvalue, hfilter, hlookup⟩ := ih
      refine ⟨reference.noted below, value_overlay hvalue, (filter_noted below).trans hfilter, ?_⟩
      intro name
      rw [lookup_noted, hlookup, List.findSome?_cons]
      split
      · cases reference.string? name <;> rfl
      · rfl

/-! ## Beneath a target -/

/-- What a node is, apart from the document that it was read in. -/
def content (node : Node) : Option Key × Json := (node.key?, node.value)

theorem key?_step (node : Node) (token : String) :
    (node.step token).key? = node.key?.map fun key => (key.1, Json.Pointer.child key.2 token) := by
  unfold key? step
  cases node.document.identity <;> simp [Json.Pointer.child, String.append_assoc]

theorem map_child? {α : Type} {f : Node → α} (hstep : f (node.step token) = f (other.step token))
    (hsome : (node.child? token).isSome = (other.child? token).isSome) :
    (node.child? token).map f = (other.child? token).map f := by
  cases hchild : node.child? token with
  | none =>
      rw [hchild, Option.isSome_none, eq_comm, Option.isSome_eq_false_iff,
        Option.isNone_iff_eq_none] at hsome
      rw [hsome]
  | some child =>
      rw [hchild, Option.isSome_some, eq_comm, Option.isSome_iff_exists] at hsome
      obtain ⟨child', hchild'⟩ := hsome
      rw [hchild', Option.map_some, Option.map_some, eq_step_of_child? hchild,
        eq_step_of_child? hchild', hstep]

theorem content_step (h : node.content = other.content) (token : String) :
    (node.step token).content = (other.step token).content := by
  obtain ⟨hkey, hvalue⟩ := Prod.mk.inj h
  rw [content, content, key?_step, key?_step, value_step, value_step, hkey, hvalue]

theorem map_content_child? (h : node.content = other.content) (token : String) :
    (node.child? token).map content = (other.child? token).map content := by
  refine map_child? (content_step h token) ?_
  have hvalue : node.value = other.value := (Prod.mk.inj h).2
  unfold child? member? has
  rw [hvalue]
  cases other.value with
  | object members => simp only; split <;> rfl
  | array items =>
      simp only
      cases Json.Pointer.looseIndex? token with
      | none => rfl
      | some index => simp only; split <;> rfl
  | _ => rfl

theorem map_content_follow? (h : node.content = other.content) (path : List String) :
    (node.follow? path).map content = (other.follow? path).map content := by
  induction path generalizing node other with
  | nil => simpa [follow?] using h
  | cons token rest ih =>
      have hchild := map_content_child? h token
      rw [follow?, follow?]
      cases hnode : node.child? token with
      | none =>
          rw [hnode, Option.map_none, eq_comm, Option.map_eq_none_iff] at hchild
          rw [hchild]
      | some child =>
          rw [hnode, Option.map_some, eq_comm, Option.map_eq_some_iff] at hchild
          obtain ⟨child', hother, hsame⟩ := hchild
          rw [hother]
          exact ih hsame.symm

theorem key?_underNotes (references : List Node) (target : Node) :
    (underNotes references target).key? = target.key? := by
  induction references with
  | nil => rfl
  | cons reference rest ih => exact (key?_overlay _ _).trans ih

theorem map_content_follow?_underNotes (references : List Node) (target : Node)
    (htoken : token ∉ noteNames) (path : List String) :
    ((underNotes references target).follow? (token :: path)).map content =
      (target.follow? (token :: path)).map content := by
  by_cases hobject : target.isObject
  · obtain ⟨members, hmembers⟩ := isObject_iff.mp hobject
    obtain ⟨noted, hnoted, -, hlookup⟩ := exists_value_underNotes references hmembers
    have hsame : noted.lookup token = members.lookup token := by rw [hlookup, if_neg htoken]
    have hstep : ((underNotes references target).step token).content =
        (target.step token).content := by
      rw [content, content, key?_step, key?_step, value_step, value_step, key?_underNotes, hnoted,
        hmembers, Json.Pointer.step?, Json.Pointer.step?, hsame]
    have hchild : ((underNotes references target).child? token).map content =
        (target.child? token).map content := by
      refine map_child? hstep ?_
      simp only [child?, member?, has, hnoted, hmembers, Json.member?, hsame]
      split <;> rfl
    rw [follow?, follow?]
    cases htarget : target.child? token with
    | none =>
        rw [htarget, Option.map_none, Option.map_eq_none_iff] at hchild
        rw [hchild]
    | some child =>
        rw [htarget, Option.map_some, Option.map_eq_some_iff] at hchild
        obtain ⟨child', hcopy, hcontent⟩ := hchild
        rw [hcopy]
        exact map_content_follow? hcontent path
  · rw [underNotes_of_not_isObject hobject]

end Node

namespace Resolver

variable {resolver : Resolver} {node target found other : Node} {references : List Node}
  {scope : List String} {base : String}

/-! ## What a chain of references leads to -/

def Hop.found? : Hop → Option Node
  | .found node => some node
  | _ => none

/-- The chase from a node passes the references in their order and comes to the target: to the
node itself, if it is no reference, or else to what the last of them names. -/
inductive Reaches (resolver : Resolver) (scope : List String) (node : Node) :
    List Node → Node → Prop where
  | here : node.role = .plain → Reaches resolver scope node [] node
  | along {hops : List (Node × String)} {last target : Node} {base text : String}
      {kind : Node.RefKind} :
      resolver.Trail (node, resolver.baseOf node) hops (last, base) → Fresh scope hops →
      last.role = .reference text kind →
      resolver.hop text kind base (scope ++ uris hops) = .found target →
      Reaches resolver scope node (hops.map Prod.fst ++ [last]) target

theorem underNotes_append (hops : List (Node × String)) (last target : Node) :
    Node.underNotes (hops.map Prod.fst ++ [last]) target =
      overlays hops (last.overlay target) := by
  rw [Node.underNotes, List.foldr_append, List.foldr_map]
  rfl

theorem Trail.nil_of_plain {place last : Node × String} {hops : List (Node × String)}
    (h : resolver.Trail place hops last) (hplain : last.1.role = .plain) :
    hops = [] ∧ place = last := by
  induction h with
  | nil place => exact ⟨rfl, rfl⟩
  | cons hlinks _ ih =>
      obtain ⟨-, rfl⟩ := ih hplain
      exact absurd hplain (role_ne_plain_of_move hlinks.leads)

theorem move_of_role_plain (h : node.role = .plain) (base : String) (scope : List String) :
    resolver.move node base scope = .halt (some node) := by
  simp [move, h]

theorem resolveInScope_eq_some_iff :
    resolver.resolveInScope node scope = some found ↔
      ∃ references target, resolver.Reaches scope node references target ∧
        found = Node.underNotes references target := by
  rw [resolveInScope_eq_follow, follow_eq_some_iff]
  constructor
  · rintro ⟨hops, ⟨last, base⟩, named, htrail, hfresh, hhalt, rfl⟩
    cases hrole : last.role with
    | plain =>
        obtain ⟨rfl, hplace⟩ := htrail.nil_of_plain hrole
        obtain ⟨rfl, -⟩ := Prod.mk.inj hplace
        rw [move_of_role_plain hrole, Move.halt.injEq, Option.some.injEq] at hhalt
        exact ⟨[], node, .here hrole, hhalt.symm⟩
    | broken => simp [move, hrole] at hhalt
    | reference text kind =>
        simp only [move, hrole] at hhalt
        cases hhop : resolver.hop text kind base (scope ++ uris hops) with
        | missing => simp [hhop] at hhalt
        | onward uri beyond next => simp [hhop] at hhalt
        | found target =>
            rw [hhop, Move.halt.injEq, Option.some.injEq] at hhalt
            exact ⟨_, target, .along htrail hfresh hrole hhop, by rw [underNotes_append, hhalt]⟩
  · rintro ⟨references, target, hreaches, rfl⟩
    cases hreaches with
    | here hrole =>
        exact ⟨[], _, node, .nil _, fresh_nil scope, move_of_role_plain hrole _ _, rfl⟩
    | @along hops last target base text kind htrail hfresh hrole hhop =>
        exact ⟨hops, _, last.overlay target, htrail, hfresh, by simp [move, hrole, hhop],
          underNotes_append hops last target⟩

theorem baseOf_congr (h : node.key? = other.key?) : resolver.baseOf node = resolver.baseOf other := by
  rw [baseOf, baseOf, Store.provenance?, Store.provenance?, h]

/--
Let a chain of references lead from a node to a target.  Then the node resolves, to the
target itself if that is no object, and else to a copy with its key.  The copy has the
members of the target in their order, only that of each note it has the one of the first
reference that has the note, or of the target if none has it.  And whatever is found in
the target over tokens, except at a note, is found in the copy with the same key, the same
value and the same base.
-/
theorem resolve_under_notes (resolver : Resolver) (node target : Node) (references : List Node)
    (h : resolver.Reaches [] node references target) :
    ∃ found, resolver.resolve node = some found ∧ found.key? = target.key? ∧
      (¬target.isObject → found = target) ∧
      (∀ members, target.value = .object members → ∃ noted, found.value = .object noted ∧
        noted.filter (fun member => member.1 ∉ Node.noteNames) =
          members.filter (fun member => member.1 ∉ Node.noteNames) ∧
        ∀ name, noted.lookup name =
          if name ∈ Node.noteNames then
            ((references.findSome? (·.string? name)).map Json.string).or (members.lookup name)
          else members.lookup name) ∧
      ∀ token path, token ∉ Node.noteNames →
        (found.follow? (token :: path)).map
            (fun child => (child.key?, child.value, resolver.baseOf child)) =
          (target.follow? (token :: path)).map
            fun child => (child.key?, child.value, resolver.baseOf child) := by
  refine ⟨Node.underNotes references target, resolveInScope_eq_some_iff.mpr ⟨_, _, h, rfl⟩,
    Node.key?_underNotes _ _, Node.underNotes_of_not_isObject,
    fun members => Node.exists_value_underNotes references, ?_⟩
  intro token path htoken
  have hbelow := Node.map_content_follow?_underNotes references target htoken path
  cases htarget : target.follow? (token :: path) with
  | none =>
      rw [htarget, Option.map_none, Option.map_eq_none_iff] at hbelow
      rw [hbelow]
  | some child =>
      rw [htarget, Option.map_some, Option.map_eq_some_iff] at hbelow
      obtain ⟨copy, hcopy, hcontent⟩ := hbelow
      obtain ⟨hkey, hvalue⟩ := Prod.mk.inj hcontent
      rw [hcopy, Option.map_some, Option.map_some, hkey, hvalue, baseOf_congr hkey]

theorem resolve_under_notes_two :
    let uri := "https://x.test/pets.json"
    let root := Json.object
      [("Any", .object [("$ref", .string "#/Pet"), ("summary", .string "Any pet")]),
        ("Pet", .object [("$ref", .string "#/Animal"), ("summary", .string "A pet"),
          ("description", .string "It lives with people")]),
        ("Animal", .object [("$id", .string "animal.json"), ("summary", .string "An animal"),
          ("properties", .object [("summary", .object [("type", .string "string")])])])]
    let resolver := Resolver.new (.ofDocuments [(uri, root)]) uri
    ∃ found, resolver.resolve ((Store.nextRoot .empty uri root).step "Any") = some found ∧
      found.key? = some (0, "/Animal") ∧ found.string? "summary" = some "Any pet" ∧
      found.string? "description" = some "It lives with people" ∧
      (found.follow? ["properties", "summary"]).map
          (fun child => (child.key?, child.string? "type", resolver.baseOf child)) =
        some (some (0, "/Animal/properties/summary"), some "string",
          "https://x.test/animal.json") := by
  intro uri root resolver
  let node := (Store.nextRoot .empty uri root).step "Any"
  let trail := resolver.trace 1 (node, resolver.baseOf node)
  have htrail : resolver.Trail (node, resolver.baseOf node) trail.1 trail.2 :=
    resolver.trail_trace 1 _
  have hrun : uris trail.1 = ["https://x.test/pets.json#/Pet"] ∧
      trail.2.1.role = .reference "#/Animal" .lexical := by decide +kernel
  have hfresh : Fresh [] trail.1 := by simp [Fresh, hrun.1]
  have hnamed : ((resolver.hop "#/Animal" .lexical trail.2.2 ([] ++ uris trail.1)).found?.bind
      fun target => (target.follow? ["properties", "summary"]).map fun child =>
        (target.key?, target.isObject, child.key?, child.string? "type", resolver.baseOf child)) =
      some (some (0, "/Animal"), true, some (0, "/Animal/properties/summary"), some "string",
        "https://x.test/animal.json") := by decide +kernel
  cases hhop : resolver.hop "#/Animal" .lexical trail.2.2 ([] ++ uris trail.1) with
  | missing | onward =>
      rw [hhop] at hnamed
      cases hnamed
  | found target =>
      rw [hhop, Hop.found?, Option.bind_some] at hnamed
      simp only [Option.map_eq_some_iff, Prod.mk.injEq] at hnamed
      obtain ⟨child, hchild, htarget, hobject, hchildKey, htype, hchildBase⟩ := hnamed
      obtain ⟨found, hfound, hkey, -, hmembers, hbelow⟩ :=
        resolve_under_notes resolver node target _ (.along htrail hfresh hrun.2 hhop)
      obtain ⟨members, hvalue⟩ := Node.isObject_iff.mp hobject
      obtain ⟨noted, hnoted, -, hlookup⟩ := hmembers members hvalue
      have hnotes : ∀ name ∈ Node.noteNames, ∀ text,
          (trail.1.map Prod.fst ++ [trail.2.1]).findSome? (·.string? name) = some text →
          found.string? name = some text := by
        intro name hname text htext
        have hnote : noted.lookup name = some (.string text) := by
          rw [hlookup, if_pos hname, htext]
          rfl
        simp [Node.string?, Json.stringMember?, Json.member?, hnoted, hnote, Json.asString?]
      refine ⟨found, hfound, hkey.trans htarget, hnotes _ (by decide) _ (by decide +kernel),
        hnotes _ (by decide) _ (by decide +kernel), ?_⟩
      have hcopy := hbelow "properties" ["summary"] (by decide)
      rw [hchild, Option.map_some, Option.map_eq_some_iff] at hcopy
      obtain ⟨copy, hfollow, hsame⟩ := hcopy
      obtain ⟨hcopyKey, hcopyValue, hcopyBase⟩ := by simpa only [Prod.mk.injEq] using hsame
      rw [hfollow, Option.map_some, hcopyKey, hchildKey, hcopyBase, hchildBase, Node.string?,
        hcopyValue]
      exact congrArg (fun type => some (some (0, "/Animal/properties/summary"), type, _)) htype

end Resolver

end SpecForm
