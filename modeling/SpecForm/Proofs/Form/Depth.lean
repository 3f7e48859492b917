import SpecForm.Proofs.Form.Levels

/-!
# How deep a walk goes

A walk that may go as deep as there are objects in the documents never comes to where it may
go no deeper, and going deeper would change nothing.  A variant is built one level deeper
inside no further schema; but the schema of the model is being expanded there, and no level
was spent on it.
-/

namespace SpecForm.Form

open Schema Store

variable {resolver : Resolver} {documents : List (String × Json)} {depth levels : Nat}
  {active : List (Key × String)} {property : Property} {groupName : Option String}
  {schema : Node} {form : String} {wrap : String → List Control → Control}

/-! ## Levels enough -/

theorem IsPlain.at_depth (h : IsPlain depth active schema)
    (hroomy : Roomy resolver depth active property)
    (hresolve : resolver.resolve property.schema = some schema) : IsPlain levels active schema := by
  unfold IsPlain at h ⊢
  cases hshape : classify schema (Keywords.ofNode schema) with
  | leaf => trivial
  | map =>
      rw [hshape] at h
      refine .inr (Option.isSome_iff_ne_none.mpr fun hnone => ?_)
      obtain ⟨_, hdepth, -⟩ := hroomy.value hresolve hshape hnone
      rcases h with hzero | hsome
      · omega
      · simp [hnone] at hsome
  | group | array => rwa [hshape] at h

theorem Builds.at_depth {result : Option Built}
    (h : Builds resolver depth active property groupName result)
    (hroomy : Roomy resolver depth active property)
    (hroomy' : Roomy resolver levels active property) :
    Builds resolver levels active property groupName result := by
  induction h generalizing levels with
  | unresolved hresolve => exact .unresolved hresolve
  | plain hresolve hplain => exact .plain hresolve (hplain.at_depth hroomy hresolve)
  | list hresolve hshape hnone => exact .list hresolve hshape hnone
  | enclosed hholds houter => exact .enclosed hholds houter
  | cut hholds hnone =>
      obtain ⟨_, hdepth, -⟩ := hroomy.inner hholds hnone
      cases hdepth
  | expanded hholds hnone _ ih =>
      obtain ⟨_, hdepth, hinner⟩ := hroomy.inner hholds hnone
      obtain rfl := Nat.succ.inj hdepth
      obtain ⟨_, rfl, hinner'⟩ := hroomy'.inner hholds hnone
      exact .expanded hholds hnone fun inner hmem => ih inner hmem (hinner inner hmem)
        (hinner' inner hmem)
  | map hresolve hshape hnone _ ih =>
      obtain ⟨_, hdepth, hvalue⟩ := hroomy.value hresolve hshape hnone
      obtain rfl := Nat.succ.inj hdepth
      obtain ⟨_, rfl, hvalue'⟩ := hroomy'.value hresolve hshape hnone
      exact .map hresolve hshape hnone (ih hvalue hvalue')

/-! ## One outcome -/

theorem Holds.unique {schema' : Node} {form' : String} {wrap' : String → List Control → Control}
    (h : Holds resolver property groupName schema form wrap)
    (h' : Holds resolver property groupName schema' form' wrap') :
    schema = schema' ∧ form = form' ∧ wrap = wrap' := by
  cases h with
  | group hresolve hshape =>
      cases h' with
      | group hresolve' _ =>
          obtain rfl := Option.some.inj (hresolve.symm.trans hresolve')
          exact ⟨rfl, rfl, rfl⟩
      | items hresolve' hshape' _ =>
          obtain rfl := Option.some.inj (hresolve.symm.trans hresolve')
          simp [hshape] at hshape'
  | items hresolve hshape hitems =>
      cases h' with
      | group hresolve' hshape' =>
          obtain rfl := Option.some.inj (hresolve.symm.trans hresolve')
          simp [hshape] at hshape'
      | items hresolve' _ hitems' =>
          obtain rfl := Option.some.inj (hresolve.symm.trans hresolve')
          obtain rfl := Option.some.inj (hitems.symm.trans hitems')
          exact ⟨rfl, rfl, rfl⟩

theorem Holds.shape (h : Holds resolver property groupName schema form wrap) :
    ∃ own, resolver.resolve property.schema = some own ∧
      (classify own (Keywords.ofNode own) = .group ∨
        classify own (Keywords.ofNode own) = .array ∧
          ((own.member? "items").bind resolver.resolve).filter hasProperties ≠ none) := by
  cases h with
  | group hresolve hshape => exact ⟨_, hresolve, .inl hshape⟩
  | items hresolve hshape hitems => exact ⟨_, hresolve, .inr ⟨hshape, by simp [hitems]⟩⟩

/-- The rules leave no choice: which one is right is told by what the schema of the property
is, by the schemas around it and by the levels that are left. -/
theorem Builds.unique {result result' : Option Built}
    (h : Builds resolver depth active property groupName result)
    (h' : Builds resolver depth active property groupName result') : result = result' := by
  induction h generalizing result' with
  | unresolved hresolve =>
      cases h' with
      | unresolved _ => rfl
      | _ => grind [Holds.shape]
  | plain hresolve hplain =>
      cases h' with
      | plain hresolve' _ => grind
      | _ => grind [Holds.shape, IsPlain]
  | list hresolve hshape hnone =>
      cases h' with
      | list hresolve' _ _ => grind
      | _ => grind [Holds.shape, IsPlain]
  | enclosed hholds houter =>
      cases h' with
      | enclosed hholds' houter' => grind [Holds.unique]
      | _ => grind [Holds.shape, Holds.unique, IsPlain]
  | cut hholds hnone =>
      cases h' with
      | cut hholds' _ => grind [Holds.unique]
      | _ => grind [Holds.shape, Holds.unique, IsPlain]
  | expanded hholds hnone _ ih =>
      cases h' with
      | expanded hholds' hnone' hinner' =>
          obtain ⟨rfl, rfl, rfl⟩ := hholds.unique hholds'
          have hsame := List.filterMap_congr fun inner hinner => ih inner hinner (hinner' inner hinner)
          rw [expandedOf, hsame]
          rfl
      | _ => grind [Holds.shape, Holds.unique, IsPlain]
  | map hresolve hshape hnone _ ih =>
      cases h' with
      | map hresolve' hshape' hnone' hvalue' =>
          obtain rfl := Option.some.inj (hresolve.symm.trans hresolve')
          rw [ih hvalue']
      | _ => grind [Holds.shape, IsPlain]

/-! ## Walks that give the same -/

namespace Walk

variable {α β : Type} {part part' : WalkM α} {next next' : α → WalkM β}
  {post : α → Features → Prop}

/-- Two parts come back to the schemas that were being expanded, with one result and the same
features. -/
def Alike (active : List (Key × String)) (part part' : WalkM α) : Prop :=
  ∃ result added, Gives active part (fun own more => own = result ∧ more = added) ∧
    Gives active part' fun own more => own = result ∧ more = added

namespace Alike

theorem of_gives {post' : α → Features → Prop} (h : Gives active part post)
    (h' : Gives active part' post')
    (hsame : ∀ result added result' added', post result added → post' result' added' →
      result' = result ∧ added' = added) : Alike active part part' := by
  obtain ⟨result, added, hpost, hrun⟩ := h
  obtain ⟨result', added', hpost', hrun'⟩ := h'
  exact ⟨result, added, ⟨result, added, ⟨rfl, rfl⟩, hrun⟩,
    ⟨result', added', hsame _ _ _ _ hpost hpost', hrun'⟩⟩

theorem refl (h : Gives active part post) : Alike active part part := by
  obtain ⟨result, added, -, hrun⟩ := h
  exact ⟨result, added, ⟨result, added, ⟨rfl, rfl⟩, hrun⟩, ⟨result, added, ⟨rfl, rfl⟩, hrun⟩⟩

theorem pure (result : α) : Alike active (Pure.pure result) (Pure.pure result) := by
  have hgives : Gives active (Pure.pure result) fun _ _ => True := .pure trivial
  exact refl hgives

theorem bind (h : Alike active part part') (hnext : ∀ result, Alike active (next result) (next' result)) :
    Alike active (part >>= next) (part' >>= next') := by
  obtain ⟨result, added, hpart, hpart'⟩ := h
  obtain ⟨final, more, hfinal, hfinal'⟩ := hnext result
  refine ⟨final, added.join more, hpart.bind ?_, hpart'.bind ?_⟩
  · rintro _ _ ⟨rfl, rfl⟩
    exact hfinal.mono fun _ _ hsame => ⟨hsame.1, by rw [hsame.2]⟩
  · rintro _ _ ⟨rfl, rfl⟩
    exact hfinal'.mono fun _ _ hsame => ⟨hsame.1, by rw [hsame.2]⟩

theorem mapM {list : List α} {build build' : α → WalkM β}
    (h : ∀ item ∈ list, Alike active (build item) (build' item)) :
    Alike active (list.mapM build) (list.mapM build') := by
  induction list with
  | nil =>
      rw [List.mapM_nil, List.mapM_nil]
      exact pure []
  | cons item rest ih =>
      rw [List.mapM_cons, List.mapM_cons]
      refine (h item List.mem_cons_self).bind fun result => ?_
      exact (ih fun other hother => h other (List.mem_cons_of_mem _ hother)).bind fun _ => pure _

theorem filterMapM {list : List α} {build build' : α → WalkM (Option β)}
    (h : ∀ item ∈ list, Alike active (build item) (build' item)) :
    Alike active (list.filterMapM build) (list.filterMapM build') := by
  rw [filterMapM_eq, filterMapM_eq]
  exact (mapM h).bind fun _ => pure _

end Alike

end Walk

variable {depth' : Nat}

theorem alike_buildControl (hroomy : Roomy resolver depth active property)
    (hroomy' : Roomy resolver depth' active property) :
    Walk.Alike active (buildControl resolver depth property groupName)
      (buildControl resolver depth' property groupName) := by
  refine .of_gives (follows_buildControl resolver depth property groupName)
    (follows_buildControl resolver depth' property groupName) ?_
  rintro result _ result' _ ⟨hbuilds, rfl⟩ ⟨hbuilds', rfl⟩
  obtain rfl := hbuilds'.unique (hbuilds.at_depth hroomy hroomy')
  exact ⟨rfl, rfl⟩

theorem alike_buildForm {build build' : Property → WalkM (Option Built)} (form : String)
    {properties : List Property}
    (h : ∀ property ∈ properties, Walk.Alike active (build property) (build' property)) :
    Walk.Alike active (buildForm build form properties) (buildForm build' form properties) :=
  (Walk.Alike.filterMapM h).bind fun _ => .pure _

theorem alike_buildBranch (discriminator : Discriminator) {branch : Node} (index : Nat)
    (hroomy : ∀ {schema : Node}, resolver.resolve branch = some schema →
      ∀ inner ∈ mergedProperties resolver schema,
        Roomy resolver (depth - 1) active inner ∧ Roomy resolver (depth' - 1) active inner) :
    Walk.Alike active (buildBranch resolver depth discriminator branch index)
      (buildBranch resolver depth' discriminator branch index) := by
  unfold buildBranch
  cases hresolve : resolver.resolve branch with
  | none => exact .pure _
  | some schema =>
      dsimp only
      cases (mergedProperties resolver schema).find? (·.name = discriminator.propertyName) with
      | none => exact .pure _
      | some tag =>
          dsimp only
          cases discriminatorValue?
              (((resolver.resolve tag.schema).map Keywords.ofNode).getD (Keywords.ofJson .null))
              discriminator (branch.string? "$ref") with
          | none => exact .pure _
          | some value =>
              refine (alike_buildForm _ fun inner hinner => ?_).bind fun _ => .pure _
              have hinner := hroomy hresolve inner (List.mem_of_mem_filter hinner)
              exact alike_buildControl hinner.1 hinner.2

theorem alike_buildVariants {resource : Resource} (hwhole : resource.Whole resolver depth)
    (hwhole' : resource.Whole resolver depth') (hproperty : property ∈ resource.properties) :
    Walk.Alike resource.opened (buildVariants resolver depth property)
      (buildVariants resolver depth' property) := by
  unfold buildVariants
  dsimp only
  split
  · exact .pure _
  · rename_i discriminator oneOf hfound
    obtain ⟨schema, hresolve, hdiscriminator, hmember⟩ := oneOf?_eq_some_iff.mp hfound
    have hall : Branches resolver property discriminator oneOf.items :=
      ⟨schema, oneOf, hresolve, hdiscriminator, hmember, rfl⟩
    have hbranches : ∀ entry ∈ oneOf.items.zipIdx,
        Walk.Alike resource.opened (buildBranch resolver depth discriminator entry.1 entry.2)
          (buildBranch resolver depth' discriminator entry.1 entry.2) := by
      intro entry hentry
      have hbranch := List.fst_mem_of_mem_zipIdx hentry
      exact alike_buildBranch discriminator entry.2 fun hschema inner hinner =>
        ⟨hwhole.roomy_variant hproperty hall hbranch hschema hinner,
          hwhole'.roomy_variant hproperty hall hbranch hschema hinner⟩
    refine (Walk.Alike.mapM hbranches).bind fun branches => ?_
    have hmark : ∀ set : VariantSet × List Interface, Walk.Gives resource.opened
        (modify (·.mark ({ · with isPolymorphic := true })) >>= fun _ => pure (some set))
        fun _ _ => True := fun set =>
      .mark { Features.none with isPolymorphic := true }
        (fun _ => by simp [Features.join, Features.none]) (.pure trivial)
    exact .refl (hmark _)

theorem alike_buildTopProperty {resource : Resource} (hwhole : resource.Whole resolver depth)
    (hwhole' : resource.Whole resolver depth') (hproperty : property ∈ resource.properties) :
    Walk.Alike resource.opened (buildTopProperty resolver depth property)
      (buildTopProperty resolver depth' property) := by
  unfold buildTopProperty
  refine (alike_buildVariants hwhole hwhole' hproperty).bind fun _ => ?_
  exact (alike_buildControl (hwhole.roomy hproperty) (hwhole'.roomy hproperty)).bind fun _ =>
    .pure _

/-! ## Models -/

/--
Whatever the documents and however their schemas refer to each other, the walk of a model that
is a named schema ends by itself.  If it may go as deep as there are objects in the documents
then it makes no difference how deep it may go.
-/
theorem analyze_of_objects_le (documents : List (String × Json)) (resolver : Resolver)
    (hstore : resolver.store = .ofDocuments documents) (dialect : Dialect) (name : String)
    (resource : Resource) (hresource : Resource.ofComponent resolver dialect name = .ok resource)
    (depth depth' : Nat) (hdepth : resolver.store.objects.length ≤ depth)
    (hdepth' : resolver.store.objects.length ≤ depth') :
    analyze resolver depth resource = analyze resolver depth' resource := by
  have hwhole : ∀ {levels : Nat}, resolver.store.objects.length ≤ levels →
      resource.Whole resolver levels := fun henough =>
    ⟨⟨documents, dialect, name, hstore, hresource⟩, henough⟩
  have htops : Walk.Alike resource.opened
      (resource.properties.mapM (buildTopProperty resolver depth))
      (resource.properties.mapM (buildTopProperty resolver depth')) :=
    .mapM fun property hproperty =>
      alike_buildTopProperty (hwhole hdepth) (hwhole hdepth') hproperty
  obtain ⟨tops, added, hgives, hgives'⟩ := htops
  obtain ⟨_, _, ⟨rfl, rfl⟩, hanalyze⟩ := exists_analyze hgives
  obtain ⟨_, _, ⟨rfl, rfl⟩, hanalyze'⟩ := exists_analyze hgives'
  exact hanalyze.trans hanalyze'.symm

def boxes : List (String × Json) := [("boxes.json", .object [("definitions", .object
  [("Box", .object [("properties", .object [("lid", .object [("properties", .object
    [("box", .object [("$ref", .string "#/definitions/Box")])])])])])])])]

theorem analyze_of_objects_le_boxes :
    let resolver := Resolver.new (.ofDocuments boxes) "boxes.json"
    ∃ resource, Resource.ofComponent resolver .swagger2 "Box" = .ok resource ∧
      resolver.store.objects.length = 7 ∧
      (analyze resolver 0 resource).interfaces =
        [⟨"LidForm", [], false⟩, ⟨"BoxForm", ["lid"], true⟩] ∧
      (analyze resolver 7 resource).interfaces =
        [⟨"LidForm", ["box"], false⟩, ⟨"BoxForm", ["lid"], true⟩] ∧
      analyze resolver 7 resource = analyze resolver 32 resource := by
  intro resolver
  have hrun : ∃ resource ∈ (Resource.ofComponent resolver .swagger2 "Box").toOption,
      (analyze resolver 0 resource).interfaces =
          [⟨"LidForm", [], false⟩, ⟨"BoxForm", ["lid"], true⟩] ∧
        (analyze resolver 7 resource).interfaces =
          [⟨"LidForm", ["box"], false⟩, ⟨"BoxForm", ["lid"], true⟩] := by
    decide +kernel
  obtain ⟨resource, hresource, hshallow, hdeep⟩ := exists_ofComponent hrun
  have hobjects : resolver.store.objects.length = 7 := by decide +kernel
  exact ⟨resource, hresource, hobjects, hshallow, hdeep,
    analyze_of_objects_le boxes resolver rfl .swagger2 "Box" resource hresource 7 32 hobjects.le
      (by omega)⟩

end SpecForm.Form
