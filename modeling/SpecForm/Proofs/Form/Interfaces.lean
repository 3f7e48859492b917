import SpecForm.Proofs.Form.Schemas
import SpecForm.Proofs.Form.Walk

/-!
# The interface of every nested form

A nested form is known under the name of an interface, and the walk registers that interface
with the form, except where a schema is expanded beneath itself: there the name is that of
the form into which the schema is being expanded, whose interface comes later.  So whatever
is built refers to what was registered on the way and to forms that are still open, and at
the end no form is open any more.  Only a variant gives up a name, that of the form in which
its controls were gathered.
-/

namespace SpecForm.Form

namespace Control

mutual

def parts : Control → List Control
  | .plain field => [.plain field]
  | .group field form controls => .group field form controls :: partsOf controls
  | .list field => [.list field]
  | .formList field form controls => .formList field form controls :: partsOf controls
  | .map field value keys => .map field value keys :: value.parts

def partsOf : List Control → List Control
  | [] => []
  | control :: rest => control.parts ++ partsOf rest

end

def formNames (controls : List Control) : List String :=
  (partsOf controls).filterMap fun control => control.nested?.map Prod.fst

@[simp] theorem formNames_nil : formNames [] = [] := rfl

theorem formNames_cons (control : Control) (rest : List Control) :
    formNames (control :: rest) = formNames [control] ++ formNames rest := by
  simp [formNames, partsOf]

@[simp] theorem formNames_plain (field : Field) : formNames [.plain field] = [] := rfl

@[simp] theorem formNames_list (field : Field) : formNames [.list field] = [] := rfl

@[simp] theorem formNames_group (field : Field) (form : String) (controls : List Control) :
    formNames [.group field form controls] = form :: formNames controls := by
  simp [formNames, partsOf, parts, nested?]

@[simp] theorem formNames_formList (field : Field) (form : String) (controls : List Control) :
    formNames [.formList field form controls] = form :: formNames controls := by
  simp [formNames, partsOf, parts, nested?]

@[simp] theorem formNames_map (field : Field) (value : Control) (keys : KeyRules) :
    formNames [.map field value keys] = formNames [value] := by
  simp [formNames, partsOf, parts, nested?]

theorem mem_formNames {controls : List Control} {form : String} :
    form ∈ formNames controls ↔ ∃ control ∈ controls, form ∈ formNames [control] := by
  induction controls with
  | nil => simp
  | cons control rest ih => rw [formNames_cons]; simp [ih]

end Control

open Control

variable {resolver : Resolver} {documents : List (String × Json)} {store : Store}
  {active : List (Key × String)} {names : List String} {schema : Node} {form : String}
  {deeper : Deeper}

/-- Each name that the controls use is that of an open form, or of an interface. -/
def Backed (names : List String) (controls : List Control) (interfaces : List Interface) : Prop :=
  formNames controls ⊆ names ++ interfaces.map Interface.name

/-- A schema with properties that is being expanded is so into one of the open forms. -/
def Promised (store : Store) (names : List String) (active : List (Key × String)) : Prop :=
  ∀ schema key form, store.Mirrors schema → hasProperties schema → schema.key? = some key →
    active.lookup key = some form → form ∈ names

/-! ## Open forms -/

theorem lookup_under {key : Key} {found : String}
    (h : (Walk.under active schema form).lookup key = some found) :
    active.lookup key = some found ∨ schema.key? = some key ∧ found = form := by
  rw [Walk.under, List.lookup_append, Option.or_eq_some_iff] at h
  rcases h with hold | ⟨-, hnew⟩
  · exact .inl hold
  · cases hown : schema.key? with
    | none => simp [hown] at hnew
    | some own =>
        by_cases hsame : key = own
        · simp [hown, hsame] at hnew
          exact .inr ⟨by rw [hsame], hnew.symm⟩
        · simp [hown, List.lookup_cons, beq_eq_false_iff_ne.mpr hsame] at hnew

theorem Promised.under (h : Promised store names active) (schema : Node) (form : String) :
    Promised store (form :: names) (Walk.under active schema form) := by
  intro other key found hother hproperties hkey hfound
  rcases lookup_under hfound with hold | ⟨-, rfl⟩
  · exact List.mem_cons_of_mem _ (h other key found hother hproperties hkey hold)
  · exact List.mem_cons_self

theorem Promised.under_map (h : Promised store names active) (hschema : store.Mirrors schema)
    (hmap : ¬hasProperties schema) (form : String) :
    Promised store names (Walk.under active schema form) := by
  intro other key found hother hproperties hkey hfound
  rcases lookup_under hfound with hold | ⟨hown, -⟩
  · exact h other key found hother hproperties hkey hold
  · exact absurd (hasProperties_congr hschema hother hown hkey ▸ hproperties) hmap

theorem members_of_classify (schema : Node) (keywords : Schema.Keywords) :
    (classify schema keywords = .group → hasProperties schema) ∧
      (classify schema keywords = .map → ¬hasProperties schema ∧ hasDynamicMembers schema) := by
  unfold classify
  dsimp only
  split
  · simp_all
  · split
    · simp_all
    · split <;> exact ⟨nofun, nofun⟩

theorem hasProperties_of_group {keywords : Schema.Keywords}
    (h : classify schema keywords = .group) : hasProperties schema :=
  (members_of_classify schema keywords).1 h

theorem not_hasProperties_of_map {keywords : Schema.Keywords}
    (h : classify schema keywords = .map) : ¬hasProperties schema :=
  ((members_of_classify schema keywords).2 h).1

theorem hasDynamicMembers_of_map {keywords : Schema.Keywords}
    (h : classify schema keywords = .map) : hasDynamicMembers schema :=
  ((members_of_classify schema keywords).2 h).2

/-! ## Controls -/

/-- What a builder returns is backed, if the schemas that are being expanded are promised. -/
def Backing (store : Store) (build : Property → Option String → WalkM (Option Built)) : Prop :=
  ∀ {names : List String} {active : List (Key × String)} {property : Property}
    (groupName : Option String), Promised store names active → store.Faithful property.schema →
    Walk.Gives active (build property groupName) fun result _ =>
      ∀ built ∈ result, Backed names [built.1] built.2

theorem Backed.mono {controls : List Control} {interfaces more : List Interface}
    (h : Backed names controls interfaces) (hmore : interfaces ⊆ more) :
    Backed names controls more := fun _ hname => by
  rcases List.mem_append.mp (h hname) with hopen | hregistered
  · exact List.mem_append_left _ hopen
  · exact List.mem_append_right _ (List.map_subset _ hmore hregistered)

theorem Backed.of_forall {controls : List Control} {interfaces : List Interface}
    (h : ∀ control ∈ controls, Backed names [control] interfaces) :
    Backed names controls interfaces := fun _ hname => by
  obtain ⟨control, hcontrol, hform⟩ := mem_formNames.mp hname
  exact h control hcontrol hform

theorem Backed.close {rest : List String} {controls : List Control} {interfaces : List Interface}
    (h : Backed names controls interfaces)
    (hclosed : names ⊆ rest ++ interfaces.map Interface.name) :
    Backed rest controls interfaces := fun _ hname => by
  rcases List.mem_append.mp (h hname) with hopen | hregistered
  · exact hclosed hopen
  · exact List.mem_append_right _ hregistered

theorem Backed.without {controls : List Control} {interfaces : List Interface}
    (h : Backed names controls interfaces) (form : String) :
    Backed (form :: names) controls (interfaces.filter (·.name ≠ form)) := fun name hname => by
  rcases List.mem_append.mp (h hname) with hopen | hregistered
  · exact List.mem_append_left _ (List.mem_cons_of_mem _ hopen)
  · obtain ⟨interface, hinterface, rfl⟩ := List.mem_map.mp hregistered
    by_cases hsame : interface.name = form
    · exact List.mem_append_left _ (hsame ▸ List.mem_cons_self)
    · refine List.mem_append_right _ (List.mem_map_of_mem ?_)
      exact List.mem_filter.mpr ⟨hinterface, by simpa using hsame⟩

theorem gives_buildForm {build : Property → WalkM (Option Built)} {properties : List Property}
    (form : String)
    (hbuild : ∀ property ∈ properties, Walk.Gives active (build property) fun result _ =>
      ∀ built ∈ result, Backed names [built.1] built.2) :
    Walk.Gives active (buildForm build form properties) fun result _ =>
      Backed names result.1 result.2 ∧ form ∈ result.2.map Interface.name := by
  unfold buildForm
  refine (Walk.Gives.forall_filterMapM hbuild).bind fun built _ hbuilt => .pure ⟨?_, by simp⟩
  refine .of_forall fun control hcontrol => ?_
  obtain ⟨⟨control, interfaces⟩, hmem, rfl⟩ := List.mem_map.mp hcontrol
  refine (hbuilt _ hmem).mono fun interface hinterface => List.mem_append_left _ ?_
  exact List.mem_flatMap.mpr ⟨_, hmem, hinterface⟩

theorem gives_nestedForm (hstore : resolver.store = .ofDocuments documents)
    (hdeeper : ∀ build ∈ deeper, Backing resolver.store build)
    (hpromised : Promised resolver.store names active) (hschema : resolver.store.Mirrors schema)
    (hproperties : hasProperties schema) (form : String) :
    Walk.Gives active (nestedForm resolver deeper schema form) fun nested _ =>
      Backed names nested.controls nested.interfaces ∧
        nested.form ∈ names ++ nested.interfaces.map Interface.name := by
  unfold nestedForm
  refine .get (fun _ => rfl) ?_
  split
  · rename_i enclosing hexpansion
    obtain ⟨key, hkey, hlookup⟩ := Option.bind_eq_some_iff.mp hexpansion
    exact .pure ⟨by simp [Backed],
      List.mem_append_left _ (hpromised schema key enclosing hschema hproperties hkey hlookup)⟩
  · split
    · exact .pure ⟨by simp [Backed], by simp⟩
    · rename_i build
      have hbuild := gives_buildForm form fun property hproperty =>
        hdeeper build rfl .none (hpromised.under schema form)
          (faithful_of_mem_mergedProperties hstore hschema hproperty)
      refine hbuild.within fun result _ hresult => ?_
      obtain ⟨hbacked, hform⟩ := hresult
      have hregistered := List.mem_append_right names hform
      exact .pure ⟨hbacked.close (List.cons_subset.mpr ⟨hregistered, List.subset_append_left _ _⟩),
        hregistered⟩

theorem gives_mapControl {build : Property → Option String → WalkM (Option Built)}
    (hbuild : Backing resolver.store build) (hpromised : Promised resolver.store names active)
    (hschema : resolver.store.Mirrors schema) (hmap : ¬hasProperties schema) (property : Property)
    (field : String → Field) :
    Walk.Gives active (mapControl resolver build property schema field) fun built _ =>
      Backed names [built.1] built.2 := by
  unfold mapControl
  refine .mark { Features.none with hasMaps := true }
    (fun _ => by simp [Features.join, Features.none]) ?_
  let form := Naming.pascalCase property.name ++ "ValueForm"
  let value : Property := ⟨"value", (mapParts resolver schema).2, false⟩
  have hfaithful : resolver.store.Faithful value.schema := faithful_mapParts hschema
  have hvalue := hbuild (some form) (hpromised.under_map hschema hmap form) hfaithful
  refine hvalue.within fun result _ hresult => ?_
  cases result with
  | none => exact .pure (by simp [Backed, unknownValue])
  | some built => exact .pure (by simpa [Backed] using hresult built rfl)

theorem gives_arrayControl (hstore : resolver.store = .ofDocuments documents)
    (hdeeper : ∀ build ∈ deeper, Backing resolver.store build)
    (hpromised : Promised resolver.store names active) (hschema : resolver.store.Mirrors schema)
    (property : Property) (field : String → Field) :
    Walk.Gives active (arrayControl resolver deeper property schema field) fun built _ =>
      Backed names [built.1] built.2 := by
  unfold arrayControl
  split
  · rename_i items hitems
    obtain ⟨hresolve, hproperties⟩ := Option.filter_eq_some_iff.mp hitems
    refine .mark { Features.none with hasFormArrays := true }
      (fun _ => by simp [Features.join, Features.none]) ?_
    have hnested := gives_nestedForm hstore hdeeper hpromised (mirrors_items hstore hschema hresolve)
      hproperties (formName (Naming.singular property.name))
    refine hnested.bind fun nested _ hbacked => .pure ?_
    rw [Backed, formNames_formList]
    exact List.cons_subset.mpr ⟨hbacked.2, hbacked.1⟩
  · exact .pure (by simp [Backed])

theorem gives_shapedControl (hstore : resolver.store = .ofDocuments documents)
    (hdeeper : ∀ build ∈ deeper, Backing resolver.store build)
    (hpromised : Promised resolver.store names active) (hschema : resolver.store.Mirrors schema)
    (property : Property) (groupName : Option String) (field : String → Field) :
    Walk.Gives active (shapedControl resolver deeper property groupName schema field) fun built _ =>
      Backed names [built.1] built.2 := by
  have hleaf : Backed names [.plain (field (typeText resolver property.schema))] [] := by
    simp [Backed]
  unfold shapedControl
  dsimp only
  split
  · rename_i hshape
    have hnested := gives_nestedForm hstore hdeeper hpromised hschema
      (hasProperties_of_group hshape) (groupName.getD (formName property.name))
    refine hnested.bind fun nested _ hbacked => .pure ?_
    rw [Backed, formNames_group]
    exact List.cons_subset.mpr ⟨hbacked.2, hbacked.1⟩
  · exact .pure hleaf
  · rename_i build hshape
    refine .get (fun _ => rfl) ?_
    split
    · exact .pure hleaf
    · exact gives_mapControl (hdeeper build rfl) hpromised hschema
        (not_hasProperties_of_map hshape) property field
  · exact gives_arrayControl hstore hdeeper hpromised hschema property field
  · exact .pure hleaf

theorem backing_controlOf (hstore : resolver.store = .ofDocuments documents)
    (hdeeper : ∀ build ∈ deeper, Backing resolver.store build) :
    Backing resolver.store (controlOf resolver deeper) := by
  intro names active property groupName hpromised hproperty
  unfold controlOf
  split
  · exact .pure (by simp)
  · rename_i schema hresolve
    have hschema := Resolver.mirrors_of_resolve hstore hproperty.mirrors hresolve
    have hshaped := gives_shapedControl hstore hdeeper hpromised hschema property groupName
      (fieldOf property (Schema.Keywords.ofNode schema)
        (Rule.ofKeywords (Schema.Keywords.ofNode schema) property.required))
    refine .markIf { Features.none with usesCustomValidators := true }
      (fun _ => by simp [Features.join, Features.none]) (hshaped.bind fun built _ hbuilt => ?_)
    refine .markIf { Features.none with hasFileUploads := true }
      (fun _ => by simp [Features.join, Features.none]) (.pure ?_)
    simpa using hbuilt

theorem backing_buildControl (hstore : resolver.store = .ofDocuments documents) (depth : Nat) :
    Backing resolver.store (buildControl resolver depth) := by
  induction depth with
  | zero => exact backing_controlOf hstore (by simp)
  | succ depth ih =>
      refine backing_controlOf hstore fun build hbuild => ?_
      rwa [← Option.some.inj hbuild]

/-! ## Variants -/

/-- The form in which the controls of a variant are gathered, which has no interface. -/
def Variant.gathering (variant : Variant) : String := "Temp" ++ variant.modelName ++ "Form"

theorem gives_buildBranch (hstore : resolver.store = .ofDocuments documents)
    (hpromised : Promised resolver.store names active) (depth : Nat)
    (discriminator : Schema.Discriminator) {branch : Node}
    (hbranch : resolver.store.Faithful branch) (index : Nat) :
    Walk.Gives active (buildBranch resolver depth discriminator branch index) fun built _ =>
      ∀ entry ∈ built.variant, Backed (entry.1.gathering :: names) entry.1.controls entry.2.2 := by
  unfold buildBranch
  split
  · exact .pure (by simp)
  · rename_i schema hresolve
    have hschema := Resolver.mirrors_of_resolve hstore hbranch.mirrors hresolve
    dsimp only
    split
    · exact .pure (by simp)
    · split
      · exact .pure (by simp)
      · have hbuild : ∀ property ∈ (mergedProperties resolver schema).filter
              (·.name ≠ discriminator.propertyName),
            Walk.Gives active (buildControl resolver (depth - 1) property none) fun result _ =>
              ∀ built ∈ result, Backed names [built.1] built.2 := fun property hproperty =>
          backing_buildControl hstore (depth - 1) .none hpromised
            (faithful_of_mem_mergedProperties hstore hschema (List.mem_of_mem_filter hproperty))
        refine (gives_buildForm _ hbuild).bind fun result _ hresult => .pure ?_
        rintro _ ⟨⟩
        exact hresult.1.without _

theorem gives_buildVariants (hstore : resolver.store = .ofDocuments documents)
    (hpromised : Promised resolver.store names active) (depth : Nat) {property : Property}
    (hproperty : resolver.store.Faithful property.schema) :
    Walk.Gives active (buildVariants resolver depth property) fun built _ =>
      ∀ entry ∈ built, ∀ variant ∈ entry.1.variants,
        Backed (variant.gathering :: names) variant.controls entry.2 := by
  unfold buildVariants
  dsimp only
  split
  · exact .pure (by simp)
  · rename_i discriminator oneOf hfound
    obtain ⟨schema, hresolve, -, hmember⟩ := oneOf?_eq_some_iff.mp hfound
    have hschema := Resolver.mirrors_of_resolve hstore hproperty.mirrors hresolve
    have honeOf := hschema.of_member? (by decide) hmember
    have hbranch : ∀ entry ∈ oneOf.items.zipIdx,
        Walk.Gives active (buildBranch resolver depth discriminator entry.1 entry.2) fun built _ =>
          ∀ found ∈ built.variant,
            Backed (found.1.gathering :: names) found.1.controls found.2.2 := fun entry hentry =>
      gives_buildBranch hstore hpromised depth discriminator
        (honeOf.of_mem_items (List.fst_mem_of_mem_zipIdx hentry)) entry.2
    refine (Walk.Gives.forall_mapM hbranch).bind fun branches _ hbranches => ?_
    refine .mark { Features.none with isPolymorphic := true }
      (fun _ => by simp [Features.join, Features.none]) (.pure ?_)
    rintro _ ⟨⟩ variant hvariant
    obtain ⟨_, hpair, rfl⟩ := List.mem_map.mp hvariant
    obtain ⟨found, hfound, rfl⟩ := List.mem_map.mp hpair
    obtain ⟨branch, hbranch, hsome⟩ := List.mem_filterMap.mp hfound
    exact (hbranches branch hbranch found hsome).mono fun interface hinterface =>
      List.mem_flatMap.mpr ⟨found, hfound, hinterface⟩

/-! ## Models -/

theorem gives_buildTopProperty (hstore : resolver.store = .ofDocuments documents)
    (hpromised : Promised resolver.store names active) (depth : Nat) {property : Property}
    (hproperty : resolver.store.Faithful property.schema) :
    Walk.Gives active (buildTopProperty resolver depth property) fun top _ =>
      (∀ control ∈ top.control, Backed names [control] top.interfaces) ∧
        ∀ set ∈ top.variants, ∀ variant ∈ set.variants,
          Backed (variant.gathering :: names) variant.controls top.interfaces := by
  unfold buildTopProperty
  refine (gives_buildVariants hstore hpromised depth hproperty).bind fun variants _ hvariants => ?_
  refine (backing_buildControl hstore depth .none hpromised hproperty).bind fun built _ hbuilt => ?_
  refine .pure ⟨fun control hcontrol => ?_, fun set hset variant hvariant => ?_⟩
  · obtain ⟨result, hresult, rfl⟩ := Option.mem_map.mp hcontrol
    refine (hbuilt result hresult).mono fun interface hinterface => List.mem_append_right _ ?_
    rwa [Option.mem_def.mp hresult]
  · obtain ⟨entry, hentry, rfl⟩ := Option.mem_map.mp hset
    refine (hvariants entry hentry variant hvariant).mono fun interface hinterface =>
      List.mem_append_left _ ?_
    rwa [Option.mem_def.mp hentry]

theorem promised_opened (store : Store) (resource : Resource) :
    Promised store [formName resource.modelName] resource.opened := by
  unfold Resource.opened
  cases resource.schema with
  | none => exact fun _ _ _ _ _ _ hlookup => by cases hlookup
  | some schema =>
      have hnone : Promised store [] [] := fun _ _ _ _ _ _ hlookup => by cases hlookup
      exact hnone.under schema _

theorem isSome_interface?_iff {analysis : Analysis} :
    (analysis.interface? form).isSome ↔ form ∈ analysis.interfaces.map Interface.name := by
  simp [Analysis.interface?, List.find?_isSome]

/--
Of every model that is a named schema, whatever the documents and however deep the walk may
go, the analysis has an interface for each nested form, at any depth of its controls: also
for those that are empty because a schema stands beneath itself, or because the walk goes no
deeper.  And so it has for each nested form of a variant, unless the form has the very name
of the form in which the controls of the variant are gathered.
-/
theorem interface?_of_nested (documents : List (String × Json)) (resolver : Resolver)
    (hstore : resolver.store = .ofDocuments documents) (dialect : Dialect) (name : String)
    (resource : Resource) (hresource : Resource.ofComponent resolver dialect name = .ok resource)
    (depth : Nat) :
    let analysis := analyze resolver depth resource
    (∀ form ∈ formNames analysis.controls, (analysis.interface? form).isSome) ∧
      ∀ set ∈ analysis.variantSets, ∀ variant ∈ set.variants, ∀ form ∈ formNames variant.controls,
        form ≠ variant.gathering → (analysis.interface? form).isSome := by
  have hopened := promised_opened resolver.store resource
  have hbuild := fun property (hproperty : property ∈ resource.properties) =>
    gives_buildTopProperty hstore hopened depth
      (faithful_of_ofComponent hstore hresource hproperty)
  obtain ⟨tops, added, htops, hanalyze⟩ := exists_analyze (Walk.Gives.forall_mapM hbuild)
  have hmore : ∀ top ∈ tops, top.interfaces ⊆ (analyze resolver depth resource).interfaces := by
    intro top htop interface hinterface
    rw [hanalyze]
    exact List.mem_append_left _ (List.mem_flatMap.mpr ⟨top, htop, hinterface⟩)
  have hform : formName resource.modelName ∈
      (analyze resolver depth resource).interfaces.map Interface.name := by
    simp [hanalyze]
  simp only [isSome_interface?_iff]
  refine ⟨fun form hmem => ?_, fun set hset variant hvariant form hmem hne => ?_⟩
  · rw [hanalyze] at hmem
    obtain ⟨control, hcontrol, hused⟩ := mem_formNames.mp hmem
    obtain ⟨top, htop, hsome⟩ := List.mem_filterMap.mp hcontrol
    have hbacked := ((htops top htop).1 control hsome).mono (hmore top htop)
    have hclosed : Backed [] [control] (analyze resolver depth resource).interfaces :=
      hbacked.close (by simpa using hform)
    exact hclosed hused
  · rw [hanalyze] at hset
    obtain ⟨top, htop, hsome⟩ := List.mem_filterMap.mp hset
    have hbacked := ((htops top htop).2 set hsome variant hvariant).mono (hmore top htop)
    have hclosed : Backed [variant.gathering] variant.controls
        (analyze resolver depth resource).interfaces :=
      hbacked.close (List.cons_subset.mpr ⟨List.mem_cons_self,
        List.cons_subset.mpr ⟨List.mem_append_right _ hform, List.nil_subset _⟩⟩)
    exact (List.mem_cons.mp (hclosed hmem)).resolve_left hne

/-! ## A form that is named like the form of its variant -/

def pets : List (String × Json) := [("file:///pets.json", .object
  [("openapi", .string "3.1.0"), ("components", .object [("schemas", .object
    [("Owner", .object [("properties", .object
      [("friend", .object [("$ref", .string "#/components/schemas/Owner")]),
      ("pet", .object
        [("oneOf", .array [.object [("$ref", .string "#/components/schemas/Cat")]]),
        ("discriminator", .object [("propertyName", .string "kind")])])])]),
    ("Cat", .object [("properties", .object
      [("kind", .object [("const", .string "cat")]),
      ("tempCat", .object [("properties", .object [])]),
      ("toy", .object [("properties", .object [])])])])])])])]

theorem analyze_pets :
    let resolver := Resolver.new (.ofDocuments pets) "file:///pets.json"
    ∃ resource, Resource.ofComponent resolver .openApi31 "Owner" = .ok resource ∧
      formNames (analyze resolver 32 resource).controls = ["OwnerForm"] ∧
      ((analyze resolver 32 resource).interface? "TempCatForm").isNone ∧
      ∃ set ∈ (analyze resolver 32 resource).variantSets, ∃ variant ∈ set.variants,
        formNames variant.controls = ["TempCatForm", "ToyForm"] ∧
          variant.gathering = "TempCatForm" := by
  intro resolver
  have hrun : ∃ resource ∈ (Resource.ofComponent resolver .openApi31 "Owner").toOption,
      formNames (analyze resolver 32 resource).controls = ["OwnerForm"] ∧
      ((analyze resolver 32 resource).interface? "TempCatForm").isNone ∧
      ∃ set ∈ (analyze resolver 32 resource).variantSets, ∃ variant ∈ set.variants,
        formNames variant.controls = ["TempCatForm", "ToyForm"] ∧
          variant.gathering = "TempCatForm" := by
    decide +kernel
  exact exists_ofComponent hrun

theorem interface?_of_nested_pets :
    let resolver := Resolver.new (.ofDocuments pets) "file:///pets.json"
    ∃ resource, Resource.ofComponent resolver .openApi31 "Owner" = .ok resource ∧
      formNames (analyze resolver 32 resource).controls = ["OwnerForm"] ∧
      ((analyze resolver 32 resource).interface? "OwnerForm").isSome ∧
      ∃ set ∈ (analyze resolver 32 resource).variantSets, ∃ variant ∈ set.variants,
        "ToyForm" ∈ formNames variant.controls ∧
          ((analyze resolver 32 resource).interface? "ToyForm").isSome := by
  obtain ⟨resource, hresource, hcontrols, -, set, hset, variant, hvariant, hforms, hgathering⟩ :=
    analyze_pets
  obtain ⟨htop, hvariants⟩ := interface?_of_nested pets
    (.new (.ofDocuments pets) "file:///pets.json") rfl .openApi31 "Owner" resource hresource 32
  have htoy : "ToyForm" ∈ formNames variant.controls := by simp [hforms]
  exact ⟨resource, hresource, hcontrols, htop _ (by simp [hcontrols]), set, hset, variant, hvariant,
    htoy, hvariants set hset variant hvariant _ htoy (by simp [hgathering])⟩

/-- A form in a variant that has the name of the variant's own form is left without an
interface. -/
theorem exists_nested_without_interface :
    let resolver := Resolver.new (.ofDocuments pets) "file:///pets.json"
    ∃ resource, Resource.ofComponent resolver .openApi31 "Owner" = .ok resource ∧
      ∃ set ∈ (analyze resolver 32 resource).variantSets, ∃ variant ∈ set.variants,
        "TempCatForm" ∈ formNames variant.controls ∧
          ¬((analyze resolver 32 resource).interface? "TempCatForm").isSome := by
  obtain ⟨resource, hresource, -, hnone, set, hset, variant, hvariant, hforms, -⟩ := analyze_pets
  exact ⟨resource, hresource, set, hset, variant, hvariant, by simp [hforms], by simpa using hnone⟩

end SpecForm.Form
