import SpecForm.Proofs.Form.Variants
import SpecForm.Proofs.Resolve.InPlace

/-!
# Schemas that are being expanded

The schemas that are being expanded are a stack without repetition.  Two functions of the walk
put a schema on it, each where that schema is not being expanded, and each takes it off again
after the controls inside it; so every part of a walk comes back to the stack that it found.
That there is no repetition all the way, and not only where a part ends, is said of the same
walk in a monad that keeps every walk it comes through.
-/

namespace SpecForm.Form

open Schema

/-! ## Watching -/

/-- A walk, and those that it was before. -/
structure Watched where
  walk : Walk
  earlier : List Walk

/-- The walk goes on, and leaves itself behind as it was. -/
def Watched.go (watched : Watched) (walk : Walk) : Watched :=
  ⟨walk, watched.earlier ++ [watched.walk]⟩

def WatchM (α : Type) : Type := StateM Watched α

namespace WatchM

instance : Monad WatchM := inferInstanceAs (Monad (StateM Watched))

instance : LawfulMonad WatchM := inferInstanceAs (LawfulMonad (StateM Watched))

instance : MonadStateOf Walk WatchM where
  get := fun watched => (watched.walk, watched)
  set walk := fun watched => ((), watched.go walk)
  modifyGet change := fun watched =>
    ((change watched.walk).1, watched.go (change watched.walk).2)

variable {α β : Type}

def run (part : WatchM α) (watched : Watched) : α × Watched := StateT.run part watched

theorem run_bind (part : WatchM α) (next : α → WatchM β) (watched : Watched) :
    (part >>= next).run watched = (next (part.run watched).1).run (part.run watched).2 := rfl

theorem run_modify_bind (change : Walk → Walk) (next : PUnit → WatchM β) (watched : Watched) :
    (modify change >>= next).run watched =
      (next ⟨⟩).run (watched.go (change watched.walk)) := rfl

end WatchM

namespace Walk

variable {α β : Type} {safe : Prop} {active : List (Key × String)} {schema : Node} {form : String}
  {seen : WatchM α} {part : WalkM α} {seenNext : α → WatchM β} {next : α → WalkM β}

/-- The schemas that are being expanded are different nodes. -/
def Apart (active : List (Key × String)) : Prop := (active.map Prod.fst).Nodup

/-- From a walk that expands `active`, a part comes to the same when it is watched, and back to
`active`.  If it is safe to begin there, no schema is expanded twice all the way. -/
def Keeps (safe : Prop) (active : List (Key × String)) (seen : WatchM α) (part : WalkM α) :
    Prop :=
  ∀ features, ∃ result last passed, part.run ⟨features, active⟩ = (result, ⟨last, active⟩) ∧
    (∀ earlier, seen.run ⟨⟨features, active⟩, earlier⟩ =
      (result, ⟨⟨last, active⟩, earlier ++ passed⟩)) ∧
    (safe → ∀ walk ∈ passed, Apart walk.active)

def ComesBack (part : WalkM α) : Prop := ∀ walk, (part.run walk).2.active = walk.active

theorem ComesBack.of_keeps (h : ∀ active, Keeps False active seen part) : ComesBack part := by
  intro walk
  obtain ⟨result, last, passed, hrun, -⟩ := h walk.active walk.features
  exact congrArg (·.2.active) hrun

namespace Keeps

theorem pure (result : α) : Keeps safe active (Pure.pure result) (Pure.pure result) :=
  fun features => ⟨result, features, [], rfl, fun earlier => by rw [List.append_nil]; rfl,
    by simp⟩

theorem bind (h : Keeps safe active seen part)
    (hnext : ∀ result, Keeps safe active (seenNext result) (next result)) :
    Keeps safe active (seen >>= seenNext) (part >>= next) := by
  intro features
  obtain ⟨result, middle, passed, hrun, hseen, hpassed⟩ := h features
  obtain ⟨final, last, more, hrest, hseenRest, hmore⟩ := hnext result middle
  refine ⟨final, last, passed ++ more, ?_, fun earlier => ?_, fun hsafe => ?_⟩
  · rw [StateT.run_bind, hrun]
    exact hrest
  · rw [WatchM.run_bind, hseen, hseenRest, List.append_assoc]
  · exact List.forall_mem_append.mpr ⟨hpassed hsafe, hmore hsafe⟩

theorem get {seen : Walk → WatchM α} {part : Walk → WalkM α}
    (h : ∀ features, Keeps safe active (seen ⟨features, active⟩) (part ⟨features, active⟩)) :
    Keeps safe active (MonadState.get >>= seen) (MonadState.get >>= part) :=
  fun features => h features features

theorem mark {change : Features → Features} (hapart : safe → Apart active) :
    Keeps safe active (modify (Walk.mark change)) (modify (Walk.mark change)) :=
  fun features => ⟨(), change features, [⟨features, active⟩], rfl, fun _ => rfl,
    by simpa using hapart⟩

theorem markIf {condition : Prop} [Decidable condition] {change : Features → Features}
    (hapart : safe → Apart active) (h : Keeps safe active seen part) :
    Keeps safe active
      (if condition then modify (Walk.mark change) >>= fun _ => seen else seen)
      (if condition then modify (Walk.mark change) >>= fun _ => part else part) := by
  split
  · exact (mark hapart).bind fun _ => h
  · exact h

theorem within (hapart : safe → Apart active) (hunder : safe → Apart (under active schema form))
    (h : Keeps safe (under active schema form) seen part)
    (hnext : ∀ result, Keeps safe active (seenNext result) (next result)) :
    Keeps safe active
      (modify (·.enter schema form) >>= fun _ => seen >>= fun result =>
        modify (·.leave schema) >>= fun _ => seenNext result)
      (modify (·.enter schema form) >>= fun _ => part >>= fun result =>
        modify (·.leave schema) >>= fun _ => next result) := by
  intro features
  obtain ⟨result, middle, passed, hrun, hseen, hpassed⟩ := h features
  obtain ⟨final, last, more, hrest, hseenRest, hmore⟩ := hnext result middle
  let inside (features : Features) : Walk := ⟨features, under active schema form⟩
  refine ⟨final, last, ⟨features, active⟩ :: passed ++ inside middle :: more, ?_,
    fun earlier => ?_, fun hsafe => ?_⟩
  · calc StateT.run (modify (·.enter schema form) >>= fun _ => part >>= fun result =>
            modify (·.leave schema) >>= fun _ => next result) ⟨features, active⟩
        = (next (part.run (enter ⟨features, active⟩ schema form)).1).run
            (leave (part.run (enter ⟨features, active⟩ schema form)).2 schema) := rfl
      _ = (final, ⟨last, active⟩) := by rw [enter_eq, hrun, leave_under, hrest]
  · rw [WatchM.run_modify_bind, Watched.go, enter_eq, WatchM.run_bind, hseen,
      WatchM.run_modify_bind, Watched.go, leave_under, hseenRest]
    simp [inside]
  · simp only [List.cons_append, List.forall_mem_cons, List.forall_mem_append]
    exact ⟨hapart hsafe, hpassed hsafe, hunder hsafe, hmore hsafe⟩

theorem mapM {list : List α} {seen : α → WatchM β} {build : α → WalkM β}
    (h : ∀ item, Keeps safe active (seen item) (build item)) :
    Keeps safe active (list.mapM seen) (list.mapM build) := by
  induction list with
  | nil =>
      rw [List.mapM_nil, List.mapM_nil]
      exact pure []
  | cons item rest ih =>
      rw [List.mapM_cons, List.mapM_cons]
      exact (h item).bind fun result => ih.bind fun _ => pure _

theorem filterMapM {list : List α} {seen : α → WatchM (Option β)} {build : α → WalkM (Option β)}
    (h : ∀ item, Keeps safe active (seen item) (build item)) :
    Keeps safe active (list.filterMapM seen) (list.filterMapM build) := by
  induction list with
  | nil =>
      rw [List.filterMapM_nil, List.filterMapM_nil]
      exact pure []
  | cons item rest ih =>
      rw [List.filterMapM_cons, List.filterMapM_cons]
      refine (h item).bind fun result => ?_
      cases result with
      | none => exact ih
      | some value => exact ih.bind fun _ => pure _

end Keeps

end Walk

/-! ## Controls -/

variable {resolver : Resolver} {safe : Prop} {active : List (Key × String)} {depth : Nat}
  {seen : DeeperIn WatchM} {deeper : Deeper}

def Steady (seen : Property → Option String → WatchM (Option Built))
    (build : Property → Option String → WalkM (Option Built)) : Prop :=
  ∀ {safe : Prop} {active : List (Key × String)} (property : Property)
    (groupName : Option String), (safe → Walk.Apart active) →
    Walk.Keeps safe active (seen property groupName) (build property groupName)

theorem keeps_buildForm {seen : Property → WatchM (Option Built)}
    {build : Property → WalkM (Option Built)}
    (hbuild : ∀ property, Walk.Keeps safe active (seen property) (build property)) (form : String)
    (properties : List Property) :
    Walk.Keeps safe active (buildForm seen form properties) (buildForm build form properties) :=
  (Walk.Keeps.filterMapM hbuild).bind fun _ => .pure _

theorem keeps_nestedForm (hdeeper : Option.Rel Steady seen deeper)
    (hapart : safe → Walk.Apart active) (schema : Node) (form : String) :
    Walk.Keeps safe active (nestedForm resolver seen schema form)
      (nestedForm resolver deeper schema form) := by
  unfold nestedForm
  refine .get fun features => ?_
  cases hexpansion : Walk.expansion? ⟨features, active⟩ schema with
  | some enclosing => exact .pure _
  | none =>
      cases hdeeper with
      | none => exact .pure _
      | some hbuild =>
          have hunder : safe → Walk.Apart (Walk.under active schema form) := fun hsafe =>
            nodup_under (hapart hsafe) hexpansion form
          exact .within hapart hunder
            (keeps_buildForm (fun property => hbuild property none hunder) form _) fun _ => .pure _

theorem keeps_mapControl {seen : Property → Option String → WatchM (Option Built)}
    {build : Property → Option String → WalkM (Option Built)} (hbuild : Steady seen build)
    (hapart : safe → Walk.Apart active) (schema : Node)
    (hnone : safe → enclosing? active schema = none) (property : Property)
    (field : String → Field) :
    Walk.Keeps safe active (mapControl resolver seen property schema field)
      (mapControl resolver build property schema field) := by
  have hunder : safe → Walk.Apart (Walk.under active schema _) := fun hsafe =>
    nodup_under (hapart hsafe) (hnone hsafe) (Naming.pascalCase property.name ++ "ValueForm")
  unfold mapControl
  refine (Walk.Keeps.mark hapart).bind fun _ => ?_
  exact .within hapart hunder (hbuild _ _ hunder) fun _ => .pure _

theorem keeps_arrayControl (hdeeper : Option.Rel Steady seen deeper)
    (hapart : safe → Walk.Apart active) (property : Property) (schema : Node)
    (field : String → Field) :
    Walk.Keeps safe active (arrayControl resolver seen property schema field)
      (arrayControl resolver deeper property schema field) := by
  unfold arrayControl
  cases ((schema.member? "items").bind resolver.resolve).filter hasProperties with
  | none => exact .pure _
  | some items =>
      refine (Walk.Keeps.mark hapart).bind fun _ => ?_
      exact (keeps_nestedForm hdeeper hapart items _).bind fun _ => .pure _

theorem keeps_shapedControl (hdeeper : Option.Rel Steady seen deeper)
    (hapart : safe → Walk.Apart active) (property : Property) (groupName : Option String)
    (schema : Node) (field : String → Field) :
    Walk.Keeps safe active (shapedControl resolver seen property groupName schema field)
      (shapedControl resolver deeper property groupName schema field) := by
  unfold shapedControl
  cases classify schema (Keywords.ofNode schema) with
  | group => exact (keeps_nestedForm hdeeper hapart schema _).bind fun _ => .pure _
  | leaf => exact .pure _
  | array => exact keeps_arrayControl hdeeper hapart property schema field
  | map =>
      cases hdeeper with
      | none => exact .pure _
      | some hbuild =>
          refine .get fun features => ?_
          cases hexpansion : Walk.expansion? ⟨features, active⟩ schema with
          | some enclosing => exact .pure _
          | none => exact keeps_mapControl hbuild hapart schema (fun _ => hexpansion) property field

theorem steady_controlOf (hdeeper : Option.Rel Steady seen deeper) :
    Steady (controlOf resolver seen) (controlOf resolver deeper) := by
  intro safe active property groupName hapart
  unfold controlOf
  cases resolver.resolve property.schema with
  | none => exact .pure _
  | some schema =>
      refine .markIf hapart ((keeps_shapedControl hdeeper hapart property groupName schema _).bind
        fun built => ?_)
      exact .markIf hapart (.pure _)

theorem steady_buildControl (resolver : Resolver) (depth : Nat) :
    Steady (buildControl resolver depth) (buildControl resolver depth) := by
  induction depth with
  | zero => exact steady_controlOf .none
  | succ depth ih => exact steady_controlOf (.some ih)

theorem exists_steady_below (resolver : Resolver) (depth : Nat) :
    ∃ seen, Option.Rel Steady seen (below resolver depth) := by
  cases depth with
  | zero => exact ⟨none, .none⟩
  | succ depth => exact ⟨some _, .some (steady_buildControl resolver depth)⟩

/-! ## Variants -/

theorem keeps_buildBranch (hapart : safe → Walk.Apart active) (discriminator : Discriminator)
    (branch : Node) (index : Nat) :
    Walk.Keeps safe active (buildBranch resolver depth discriminator branch index)
      (buildBranch resolver depth discriminator branch index) := by
  unfold buildBranch
  cases resolver.resolve branch with
  | none => exact .pure _
  | some schema =>
      dsimp only
      cases (mergedProperties resolver schema).find? (·.name = discriminator.propertyName) with
      | none => exact .pure _
      | some tag =>
          dsimp only
          cases discriminatorValue?
              (((resolver.resolve tag.schema).map Keywords.ofNode).getD (Keywords.ofJson .null))
              discriminator (branch.string? "$ref") with
          | none => exact .pure _
          | some value =>
              refine (keeps_buildForm (fun property => ?_) _ _).bind fun _ => .pure _
              exact steady_buildControl resolver (depth - 1) property none hapart

theorem keeps_buildVariants (hapart : safe → Walk.Apart active) (property : Property) :
    Walk.Keeps safe active (buildVariants resolver depth property)
      (buildVariants resolver depth property) := by
  unfold buildVariants
  dsimp only
  split
  · exact .pure _
  · refine (Walk.Keeps.mapM fun _ => keeps_buildBranch hapart _ _ _).bind fun branches => ?_
    exact (Walk.Keeps.mark hapart).bind fun _ => .pure _

theorem keeps_buildTopProperty (hapart : safe → Walk.Apart active) (property : Property) :
    Walk.Keeps safe active (buildTopProperty resolver depth property)
      (buildTopProperty resolver depth property) := by
  unfold buildTopProperty
  refine (keeps_buildVariants hapart property).bind fun _ => ?_
  exact (steady_buildControl resolver depth property none hapart).bind fun _ => .pure _

/-! ## Models -/

def watch (resolver : Resolver) (depth : Nat) (resource : Resource) :
    List TopProperty × Watched :=
  WatchM.run (do
    if let some schema := resource.schema then
      modify (·.enter schema (formName resource.modelName))
    resource.properties.mapM (buildTopProperty resolver depth)) ⟨.start, []⟩

theorem watch_eq (resolver : Resolver) (depth : Nat) (resource : Resource) :
    watch resolver depth resource =
      WatchM.run (resource.properties.mapM (buildTopProperty resolver depth))
        ⟨⟨.none, resource.opened⟩, resource.schema.elim [] fun _ => [.start]⟩ := by
  unfold watch Resource.opened
  cases resource.schema with
  | none => rfl
  | some schema =>
      rw [Option.elim_some, ← Walk.enter_eq]
      rfl

theorem apart_opened (resource : Resource) : Walk.Apart resource.opened := by
  unfold Resource.opened
  cases resource.schema with
  | none => exact List.nodup_nil
  | some schema =>
      have hnone : enclosing? [] schema = none := by simp [enclosing?]
      exact nodup_under (by simp) hnone _

theorem exists_watch (resolver : Resolver) (depth : Nat) (resource : Resource) :
    ∃ tops features earlier,
      (resource.properties.mapM (buildTopProperty resolver depth)).run
          (⟨.none, resource.opened⟩ : Walk) = (tops, ⟨features, resource.opened⟩) ∧
        watch resolver depth resource = (tops, ⟨⟨features, resource.opened⟩, earlier⟩) ∧
        ∀ walk ∈ earlier, Walk.Apart walk.active := by
  have hopened : True → Walk.Apart resource.opened := fun _ => apart_opened resource
  have hkeeps : Walk.Keeps True resource.opened
      (resource.properties.mapM (buildTopProperty resolver depth))
      (resource.properties.mapM (buildTopProperty resolver depth)) :=
    .mapM (keeps_buildTopProperty hopened)
  obtain ⟨tops, features, passed, hrun, hseen, hpassed⟩ := hkeeps .none
  refine ⟨tops, features, _, hrun, (watch_eq resolver depth resource).trans (hseen _), ?_⟩
  refine List.forall_mem_append.mpr ⟨?_, hpassed trivial⟩
  cases resource.schema with
  | none => simp
  | some schema => simp [Walk.start, Walk.Apart]

theorem analyze_of_run {resource : Resource} {tops : List TopProperty} {last : Walk}
    (h : (resource.properties.mapM (buildTopProperty resolver depth)).run
      ⟨.none, resource.opened⟩ = (tops, last)) :
    (analyze resolver depth resource).controls = tops.filterMap TopProperty.control ∧
      (analyze resolver depth resource).variantSets = tops.filterMap TopProperty.variants ∧
      (analyze resolver depth resource).features = last.features := by
  have hgives : Walk.Gives resource.opened
      (resource.properties.mapM (buildTopProperty resolver depth)) fun result added =>
        result = tops ∧ added = last.features := by
    have hfollows : Walk.Gives resource.opened
        (resource.properties.mapM (buildTopProperty resolver depth)) _ :=
      .mapM fun property _ => follows_buildTopProperty property
    obtain ⟨result, added, -, hrun⟩ := hfollows
    refine ⟨result, added, ?_, hrun⟩
    have hsame := (hrun .none).symm.trans h
    rw [Features.none_join] at hsame
    cases hsame
    exact ⟨rfl, rfl⟩
  obtain ⟨_, _, ⟨rfl, rfl⟩, hanalyze⟩ := exists_analyze hgives
  simp [hanalyze]

/--
The schemas that are being expanded are a stack without repetition.  A model that is watched
while it is analysed is analysed to the same, and no schema is being expanded twice in any walk
on the way, where a copy that carries notes is the node that it is a copy of.  Wherever it
begins, each part of the walk comes back to the schemas that were being expanded.
-/
theorem active_is_stack (resolver : Resolver) (depth : Nat) :
    (∀ resource : Resource, ∃ tops last earlier,
      watch resolver depth resource = (tops, ⟨last, earlier⟩) ∧
        (analyze resolver depth resource).controls = tops.filterMap TopProperty.control ∧
        (analyze resolver depth resource).variantSets = tops.filterMap TopProperty.variants ∧
        (analyze resolver depth resource).features = last.features ∧
        ∀ walk ∈ earlier ++ [last], (walk.active.map Prod.fst).Nodup) ∧
    (∀ reference target : Node, (reference.overlay target).key? = target.key?) ∧
    (∀ properties : List Property,
      Walk.ComesBack (properties.mapM (buildTopProperty resolver depth))) ∧
    (∀ form properties,
      Walk.ComesBack (buildForm (buildControl resolver depth · none) form properties)) ∧
    (∀ property groupName, Walk.ComesBack (buildControl resolver depth property groupName)) ∧
    (∀ schema form, Walk.ComesBack (nestedForm resolver (below resolver depth) schema form)) ∧
    (∀ property schema field,
      Walk.ComesBack (arrayControl resolver (below resolver depth) property schema field)) ∧
    (∀ property schema field,
      Walk.ComesBack (mapControl resolver (buildControl resolver depth) property schema field)) ∧
    ∀ property, Walk.ComesBack (buildVariants resolver depth property) := by
  have hcontrol : Steady _ _ := steady_buildControl resolver depth
  obtain ⟨seen, hbelow⟩ := exists_steady_below resolver depth
  -- To come back needs nothing of where a part begins, so there it need not be safe.
  have hnot {active : List (Key × String)} : False → Walk.Apart active := False.elim
  refine ⟨fun resource => ?_, Node.key?_overlay, fun properties => ?_, fun form properties => ?_,
    fun property groupName => ?_, fun schema form => ?_, fun property schema field => ?_,
    fun property schema field => ?_, fun property => ?_⟩
  · obtain ⟨tops, features, earlier, hrun, hwatch, hearlier⟩ :=
      exists_watch resolver depth resource
    obtain ⟨hcontrols, hvariants, hfeatures⟩ := analyze_of_run hrun
    refine ⟨tops, _, earlier, hwatch, hcontrols, hvariants, hfeatures, ?_⟩
    refine List.forall_mem_append.mpr ⟨hearlier, ?_⟩
    exact List.forall_mem_singleton.mpr (apart_opened resource)
  · exact .of_keeps fun _ => .mapM (keeps_buildTopProperty hnot)
  · exact .of_keeps fun _ =>
      keeps_buildForm (fun property => hcontrol property none hnot) form properties
  · exact .of_keeps fun _ => hcontrol property groupName hnot
  · exact .of_keeps fun _ => keeps_nestedForm hbelow hnot schema form
  · exact .of_keeps fun _ => keeps_arrayControl hbelow hnot property schema field
  · exact .of_keeps fun _ => keeps_mapControl hcontrol hnot schema False.elim property field
  · exact .of_keeps fun _ => keeps_buildVariants hnot property

def cabinets : List (String × Json) := [("cabinets.json", .object [("definitions", .object
  [("Cabinet", .object [("properties", .object
      [("box", .object [("$ref", .string "#/definitions/Box")])])]),
    ("Box", .object [("properties", .object [("lid", .object [("properties", .object
      [("box", .object [("$ref", .string "#/definitions/Box")])])])])])])])]

/-- The lid's box is not put on the stack again. -/
example :
    let resolver := Resolver.new (.ofDocuments cabinets) "cabinets.json"
    (Resource.ofComponent resolver .swagger2 "Cabinet").toOption.map (fun resource =>
      (watch resolver 7 resource).2.earlier.map fun walk => walk.active.map Prod.snd) =
        some [[], ["CabinetForm"], ["CabinetForm", "BoxForm"], ["CabinetForm", "BoxForm", "LidForm"],
          ["CabinetForm", "BoxForm"]] := by
  decide +kernel

end SpecForm.Form
