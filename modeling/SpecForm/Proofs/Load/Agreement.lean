import SpecForm.Proofs.Load.Coverage

/-!
# Where references are sought and where they lead

The loader reads a reference against the base that is recorded for its node.  The
resolver reads it against what that base gives itself: if a node that is mapped
under the base has a `$self`, the base is first resolved by it, although the
`$self` of a document has gone into the base already.  A relative `$self` with
directories in it is thereby applied twice.
-/

namespace SpecForm

theorem Node.isObject_of_role {node : Node} {text : String} {kind : Node.RefKind}
    (h : node.role = .reference text kind) : node.isObject := by
  obtain ⟨keyword, -, hmember⟩ := Node.exists_keyword_of_role h
  have hkeyword : node.has keyword := by simp [Node.has, hmember]
  exact Node.isObject_of_has hkeyword

namespace Resolver

theorem targetUri?_eq_located? (resolver : Resolver) (base : String) {text : String}
    (hfile : (Reference.split text).1 ≠ "") :
    resolver.targetUri? (Reference.split text).1 base =
      Load.located? (resolver.logicalBase base) text := by
  have hempty : (Reference.split text).1.isEmpty = false := by simpa using hfile
  simp [targetUri?, Load.located?, hempty]

theorem located?_logicalBase_iff (resolver : Resolver) {base : String} (h : '#' ∉ base.toList)
    (text : String) :
    Load.located? (resolver.logicalBase base) text = Load.located? base text ↔
      ∀ holder, resolver.store.get? base = some holder →
        Load.located? (Store.logicalUri holder base) text = Load.located? base text := by
  rw [logicalBase, Reference.withoutFragment_eq_self h]
  cases resolver.store.get? base <;> simp

end Resolver

namespace Load

section

variable {m : Type → Type} {ps : Std.Do.PostShape} [Monad m] [Std.Do.WPMonad m ps]

/--
However fetching goes, every reference to another document that stands in a loaded
set was scheduled under the base that is recorded for its node, and what was
scheduled is mapped unless it may be left out.  The resolver seeks that very
document exactly if the reference reads alike against the recorded base and against
what that base gives itself: the URI that the node mapped under it, if there is one,
gives itself by a `$self` that is read against the base once more.
-/
theorem returns_load_agreement (world : World m) (retry : Retry) (answers : Answers)
    (hfetch : ∀ uri, Returns (world.fetch retry uri) (answers uri)) (steps : Nat)
    (name : String) :
    Returns (load world retry steps name) fun result => ∀ loaded, result = some (.ok loaded) →
      ∀ document ∈ loaded.store.documents, ∀ node, document.Within node →
      ∀ text kind, node.role = .reference text kind → (Reference.split text).1 ≠ "" →
      let base := loaded.resolver.baseOf node
      let sought := loaded.resolver.targetUri? (Reference.split text).1 base
      loaded.store.provenance? node = some ⟨base, document.document.retrievalUri⟩ ∧
      (∀ uri, located? base text = some uri → uri ∈ targets loaded.store document ∧
        (loaded.store.contains uri ∨ answers.MayLeaveOut uri)) ∧
      (sought = located? base text ↔
        located? (loaded.resolver.logicalBase base) text = located? base text) ∧
      ('#' ∉ base.toList → (sought = located? base text ↔
        ∀ holder, loaded.store.get? base = some holder →
          located? (Store.logicalUri holder base) text = located? base text)) := by
  refine (returns_load_covered hfetch steps name).mono fun result hresult loaded hloaded => ?_
  obtain ⟨⟨documents, hdocuments⟩, hcovered⟩ := hresult loaded hloaded
  have hbased : loaded.store.Based := hdocuments ▸ Store.based_ofDocuments documents
  intro document hdocument node hwithin text kind hrole hfile base sought
  have hsought : sought = located? (loaded.resolver.logicalBase base) text :=
    loaded.resolver.targetUri?_eq_located? base hfile
  have hrecorded : loaded.store.provenance? node =
      some ⟨base, document.document.retrievalUri⟩ := by
    obtain ⟨recorded, hbase⟩ := hwithin.exists_hasBase
      (Store.logicalUri document document.document.retrievalUri)
    have hnode := hbased document hdocument node recorded hbase (Node.isObject_of_role hrole)
    have hown : base = recorded := by
      have hstore : loaded.resolver.store = loaded.store := rfl
      simp only [base, Resolver.baseOf, hstore, hnode, Option.elim_some]
    rw [hnode, hown]
  refine ⟨hrecorded, fun uri huri => ?_, by rw [hsought], fun hplain => ?_⟩
  · obtain ⟨keyword, hkeyword, hmember⟩ := Node.exists_keyword_of_role hrole
    have hlocator : keyword ∈ locators := List.mem_append_left ["operationRef"] hkeyword
    have htext : node.value.stringMember? keyword = some text := by
      simp [Json.stringMember?, hmember, Json.asString?]
    have htarget := located?_mem_targets hwithin hrecorded hlocator htext huri
    exact ⟨htarget, hcovered document hdocument uri htarget⟩
  · rw [hsought]
    exact loaded.resolver.located?_logicalBase_iff hplain text

end

/-! ## Two loaded sets -/

def World.ofTexts (directory : String) (texts : List (String × String)) : World Id where
  directory := directory
  read path :=
    match texts.find? fun entry => entry.1.toUTF8.toList = path with
    | some (_, text) => .ok text
    | none => .error .missing
  request _ := .failed "no network"
  pause _ := ()

def World.setAt (world : World Id) (name : String) : Loaded :=
  ((load world ⟨1, 0⟩ 8 name).bind Except.toOption).getD default

theorem World.load_eq_setAt {world : World Id} {name : String}
    (h : ((load world ⟨1, 0⟩ 8 name).bind Except.toOption).isSome) :
    load world ⟨1, 0⟩ 8 name = some (.ok (world.setAt name)) := by
  rw [setAt]
  match hresult : load world ⟨1, 0⟩ 8 name with
  | none => simp [hresult] at h
  | some (.error fault) => simp [hresult, Except.toOption] at h
  | some (.ok loaded) => simp [Except.toOption]

/-- A document whose `$self` lies beside it, and one that it refers to. -/
def besideWorld : World Id := .ofTexts "/w"
  [("/w/api/root.yaml", "$self: main.yaml\npet:\n  $ref: pet.yaml\n"),
    ("/w/api/pet.yaml", "title: Pet\n")]

theorem returns_load_agreement_beside :
    ∃ loaded, load besideWorld ⟨1, 0⟩ 8 "api/root.yaml" = some (.ok loaded) ∧
      ∃ document ∈ loaded.store.documents, ∃ node, document.Within node ∧
        node.role = .reference "pet.yaml" .lexical ∧
        loaded.resolver.targetUri? "pet.yaml" (loaded.resolver.baseOf node) =
          some "file:///w/api/pet.yaml" ∧
        loaded.store.contains "file:///w/api/pet.yaml" := by
  have hload := World.load_eq_setAt (show ((load besideWorld ⟨1, 0⟩ 8
    "api/root.yaml").bind Except.toOption).isSome by decide +kernel)
  refine ⟨_, hload, ?_⟩
  obtain ⟨document, hdocument, node, hchild, hrole, hbase, hlocated, hagain⟩ :
      ∃ document ∈ (besideWorld.setAt "api/root.yaml").store.documents,
      ∃ node ∈ document.children, node.role = .reference "pet.yaml" .lexical ∧
        (besideWorld.setAt "api/root.yaml").resolver.baseOf node = "file:///w/api/main.yaml" ∧
        located? "file:///w/api/main.yaml" "pet.yaml" = some "file:///w/api/pet.yaml" ∧
        ((besideWorld.setAt "api/root.yaml").store.get? "file:///w/api/main.yaml").all
          (fun holder => Store.logicalUri holder "file:///w/api/main.yaml" =
            "file:///w/api/main.yaml") := by
    decide +kernel
  have hfetched : (besideWorld.fetch ⟨1, 0⟩ "file:///w/api/pet.yaml").toOption.isSome := by
    decide +kernel
  have hreturns := returns_id.mp (returns_load_agreement besideWorld ⟨1, 0⟩
    (fun uri outcome => outcome = besideWorld.fetch ⟨1, 0⟩ uri) (fun uri => returns_id.mpr rfl)
    8 "api/root.yaml")
  have hwithin : document.Within node := .child .root hchild
  obtain ⟨-, hcovered, -, hagree⟩ := hreturns _ hload document hdocument node hwithin _ _ hrole
    (by decide +kernel)
  rw [hbase] at hcovered hagree
  obtain ⟨-, hmapped | ⟨fault, hfault, -⟩⟩ := hcovered _ hlocated
  · refine ⟨document, hdocument, node, hwithin, hrole, ?_, hmapped⟩
    rw [hbase, ← hlocated, ← (hagree (by decide +kernel)).mpr]
    · rfl
    · intro holder hholder
      rw [hholder, Option.all_some, decide_eq_true_iff] at hagain
      rw [hagain]
  · rw [← hfault] at hfetched
    cases hfetched

/-- A document whose `$self` lies in another directory, where there is also the one that
it refers to. -/
def beneathWorld : World Id := .ofTexts "/w"
  [("/w/root.yaml", "$self: api/root.yaml\npet:\n  $ref: pet.yaml\n"),
    ("/w/api/pet.yaml", "title: Pet\n")]

/-- Read again, the `$self` names another document: what the reference refers to was
scheduled and loaded, but the reference leads nowhere. -/
theorem exists_load_disagreement :
    ∃ loaded, load beneathWorld ⟨1, 0⟩ 8 "root.yaml" = some (.ok loaded) ∧
      ∃ document ∈ loaded.store.documents, ∃ node, document.Within node ∧
        node.role = .reference "pet.yaml" .lexical ∧
        located? (loaded.resolver.baseOf node) "pet.yaml" = some "file:///w/api/pet.yaml" ∧
        loaded.store.contains "file:///w/api/pet.yaml" ∧
        loaded.resolver.targetUri? "pet.yaml" (loaded.resolver.baseOf node) =
          some "file:///w/api/api/pet.yaml" ∧
        loaded.resolver.resolve node = none := by
  have hload := World.load_eq_setAt (show ((load beneathWorld ⟨1, 0⟩ 8
    "root.yaml").bind Except.toOption).isSome by decide +kernel)
  refine ⟨_, hload, ?_⟩
  obtain ⟨document, hdocument, node, hchild, hrole, hscheduled, hmapped, hsought, hnone⟩ :
      ∃ document ∈ (beneathWorld.setAt "root.yaml").store.documents,
      ∃ node ∈ document.children, node.role = .reference "pet.yaml" .lexical ∧
        located? ((beneathWorld.setAt "root.yaml").resolver.baseOf node) "pet.yaml" =
          some "file:///w/api/pet.yaml" ∧
        (beneathWorld.setAt "root.yaml").store.contains "file:///w/api/pet.yaml" ∧
        (beneathWorld.setAt "root.yaml").resolver.targetUri? "pet.yaml"
          ((beneathWorld.setAt "root.yaml").resolver.baseOf node) =
            some "file:///w/api/api/pet.yaml" ∧
        ((beneathWorld.setAt "root.yaml").resolver.resolve node).isNone := by
    decide +kernel
  exact ⟨document, hdocument, node, .child .root hchild, hrole, hscheduled, hmapped, hsought,
    Option.isNone_iff_eq_none.mp hnone⟩

end Load

end SpecForm
