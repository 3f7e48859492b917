import SpecForm.Proofs.Form.Lineage
import SpecForm.Proofs.Form.PropertyNames

/-!
# Merging and inheritance

Merging visits a schema once.  What it has still to visit of a schema stands before all that
was pending when it came to the schema; so it comes to a schema that it has seen after
everything that this one is made of, or else in the midst of it, and then the schema would be
made of itself.  Where no schema is, nothing is skipped that has not been gathered, and the
properties are those of the lineage, of each name the first.
-/

namespace SpecForm.Form

open Relation Store

variable {resolver : Resolver} {store : Store} {schema other own part next : Node} {key : Key}
  {found : Node → Prop} {merge merge' : Merge} {rest front : List Node} {depth : Nat}

/-! ## Schemas with one key -/

theorem names_ownProperties (schema : Node) :
    Merge.names (ownProperties schema) =
      Json.names (((schema.value.member? "properties").bind Json.asObject?).getD []) := by
  unfold ownProperties Node.member?
  by_cases hhas : schema.has "properties"
  · rw [if_pos hhas, Option.elim_some, Node.member?_value_of_has hhas, Option.bind_some,
      Node.entries, Merge.names, List.map_map, Node.members]
    exact List.map_id _
  · rw [if_neg hhas, Option.not_isSome_iff_eq_none.mp hhas]
    rfl

theorem names_ownProperties_congr (h : store.Mirrors schema) (h' : store.Mirrors other)
    (hkey : schema.key? = some key) (hkey' : other.key? = some key) :
    Merge.names (ownProperties schema) = Merge.names (ownProperties other) := by
  rw [names_ownProperties, names_ownProperties, h.member?_congr h' hkey hkey' (by decide)]

theorem requiredNames_congr (h : store.Mirrors schema) (h' : store.Mirrors other)
    (hkey : schema.key? = some key) (hkey' : other.key? = some key) :
    Merge.requiredNames schema = Merge.requiredNames other := by
  rw [Merge.requiredNames, Merge.requiredNames, h.member?_congr h' hkey hkey' (by decide)]

namespace Merge

/-! ## What has been gathered -/

def Known (merge : Merge) (schema : Node) : Prop := ∃ key ∈ merge.seen, schema.key? = some key

structure Has (merge : Merge) (schema : Node) : Prop where
  properties : names (ownProperties schema) ⊆ names merge.properties
  required : requiredNames schema ⊆ merge.required

/-- Whatever a schema with the key is made of is known or among the first that are pending,
and all of these lead to what such a schema is made of. -/
structure Awaits (resolver : Resolver) (found : Node → Prop) (merge : Merge) (key : Key)
    (front : List Node) : Prop where
  first : ∃ back, merge.pending = front ++ back
  beneath : ∀ member ∈ front, ∀ own, resolver.resolve member = some own →
    ∃ schema, found schema ∧ schema.key? = some key ∧ TransGen (Inherits resolver) schema own
  covers : ∀ schema, found schema → schema.key? = some key → ∀ part,
    Inherits resolver schema part → merge.Known part ∨
      ∃ member ∈ front, ∃ own, resolver.resolve member = some own ∧ own.key? = part.key?

structure Told (resolver : Resolver) (found : Node → Prop) (merge : Merge) : Prop where
  pending : ∀ member ∈ merge.pending, ∀ own, resolver.resolve member = some own → found own
  gathered : ∀ schema, found schema → merge.Known schema → merge.Has schema
  awaited : ∀ key ∈ merge.seen, ∃ front, Awaits resolver found merge key front

theorem Known.mono (h : merge.Known schema) (hseen : merge.seen ⊆ merge'.seen) :
    merge'.Known schema := by
  obtain ⟨key, hkey, hschema⟩ := h
  exact ⟨key, hseen hkey, hschema⟩

theorem Awaits.step (h : Awaits resolver found merge key front) (parts : List Node)
    (hpending : merge.pending = next :: rest) (hpending' : merge'.pending = parts ++ rest)
    (hseen : merge.seen ⊆ merge'.seen)
    (hnext : ∀ own, resolver.resolve next = some own → merge'.Known own)
    (hparts : ∀ member ∈ parts, ∀ part, resolver.resolve member = some part →
      ∃ own, resolver.resolve next = some own ∧ Inherits resolver own part) :
    ∃ front, Awaits resolver found merge' key front := by
  obtain ⟨back, hback⟩ := h.first
  cases front with
  | nil =>
      refine ⟨[], ⟨_, rfl⟩, fun _ hmem => absurd hmem List.not_mem_nil,
        fun schema hschema hkey part hpart => ?_⟩
      rcases h.covers schema hschema hkey part hpart with hknown | ⟨member, hmember, -⟩
      · exact .inl (hknown.mono hseen)
      · cases hmember
  | cons first others =>
      obtain ⟨rfl, rfl⟩ : next = first ∧ rest = others ++ back := by
        simpa [hpending] using hback
      refine ⟨parts ++ others, ⟨back, by rw [hpending', List.append_assoc]⟩, ?_, ?_⟩
      · intro member hmember part hpart
        rcases List.mem_append.mp hmember with hnew | hold
        · obtain ⟨own, hown, hinherits⟩ := hparts member hnew part hpart
          obtain ⟨schema, hschema, hkey, hway⟩ := h.beneath next List.mem_cons_self own hown
          exact ⟨schema, hschema, hkey, hway.tail hinherits⟩
        · exact h.beneath member (List.mem_cons_of_mem _ hold) part hpart
      · intro schema hschema hkey part hpart
        rcases h.covers schema hschema hkey part hpart with
          hknown | ⟨member, hmember, own, hown, hsame⟩
        · exact .inl (hknown.mono hseen)
        · rcases List.mem_cons.mp hmember with rfl | hother
          · obtain ⟨other, hother, hkeyOwn⟩ := hnext own hown
            exact .inl ⟨other, hother, hsame ▸ hkeyOwn⟩
          · exact .inr ⟨member, List.mem_append_right _ hother, own, hown, hsame⟩

namespace Told

theorem drop (h : Told resolver found merge) (hpending : merge.pending = next :: rest)
    (hnext : ∀ own, resolver.resolve next = some own → merge.Known own) :
    Told resolver found { merge with pending := rest } where
  pending member hmember := h.pending member (hpending ▸ List.mem_cons_of_mem _ hmember)
  gathered schema hschema hknown := by
    obtain ⟨hproperties, hrequired⟩ := h.gathered schema hschema hknown
    exact ⟨hproperties, hrequired⟩
  awaited key hkey := by
    obtain ⟨front, hfront⟩ := h.awaited key hkey
    exact hfront.step [] hpending rfl (List.Subset.refl _) hnext
      fun _ hmem => absurd hmem List.not_mem_nil

theorem visit (h : Told resolver found merge) (hpedigree : Pedigree resolver found)
    (hpending : merge.pending = next :: rest) (hresolve : resolver.resolve next = some own)
    (hkey : own.key? = some key) :
    Told resolver found
      (Merge.visit { merge with pending := rest, seen := key :: merge.seen } own) := by
  have hown : found own := h.pending next (hpending ▸ List.mem_cons_self) own hresolve
  have hmirrors := (hpedigree.seated hown).1
  refine ⟨?_, ?_, ?_⟩
  · intro member hmember part hpart
    rcases List.mem_append.mp hmember with hnew | hold
    · exact hpedigree.inherits hown ⟨member, hnew, hpart⟩
    · exact h.pending member (hpending ▸ List.mem_cons_of_mem _ hold) part hpart
  · rintro schema hschema ⟨other, hother, hkey'⟩
    rcases List.mem_cons.mp hother with rfl | hold
    · have hmirrors' := (hpedigree.seated hschema).1
      refine ⟨?_, ?_⟩
      · rw [names_ownProperties_congr hmirrors' hmirrors hkey' hkey]
        exact fun name hname => mem_names_foldl.mpr (.inr hname)
      · rw [requiredNames_congr hmirrors' hmirrors hkey' hkey]
        exact List.subset_append_right _ _
    · obtain ⟨hproperties, hrequired⟩ := h.gathered schema hschema ⟨other, hold, hkey'⟩
      exact ⟨fun name hname => mem_names_foldl.mpr (.inl (hproperties hname)),
        fun name hname => List.mem_append_left _ (hrequired hname)⟩
  · intro other hother
    rcases List.mem_cons.mp hother with rfl | hold
    · refine ⟨parts own, ⟨rest, rfl⟩, ?_, ?_⟩
      · exact fun member hmember part hpart => ⟨own, hown, hkey, .single ⟨member, hmember, hpart⟩⟩
      · intro schema hschema hkey' part hpart
        have hsame := map_key?_bases resolver (hpedigree.seated hschema).1 hmirrors hkey' hkey
        have hmem := List.mem_map_of_mem (f := Node.key?) (mem_bases.mpr hpart)
        rw [hsame] at hmem
        obtain ⟨base, hbase, hkeyBase⟩ := List.mem_map.mp hmem
        obtain ⟨member, hmember, hresolve⟩ := mem_bases.mp hbase
        exact .inr ⟨member, hmember, base, hresolve, hkeyBase⟩
    · obtain ⟨front, hfront⟩ := h.awaited other hold
      refine hfront.step (parts own) hpending rfl (List.subset_cons_self _ _) ?_ ?_
      · intro same hsame
        obtain rfl := Option.some.inj (hresolve.symm.trans hsame)
        exact ⟨key, List.mem_cons_self, hkey⟩
      · exact fun member hmember part hpart => ⟨own, hresolve, member, hmember, hpart⟩

/-- What a schema is made of has been seen when merging comes to the schema again. -/
theorem known_of_inherits (h : Told resolver found merge) (hpedigree : Pedigree resolver found)
    (hpending : merge.pending = next :: rest) (hresolve : resolver.resolve next = some own)
    (hknown : merge.Known own) (hlast : ReflTransGen (Inherits resolver) own part) :
    merge.Known part := by
  have hown : found own := h.pending next (hpending ▸ List.mem_cons_self) own hresolve
  induction hlast with
  | refl => exact hknown
  | @tail schema part hschema hpart ih =>
      obtain ⟨key, hseen, hkey⟩ := ih
      have hfound := hpedigree.found_of_inherits hown hschema
      obtain ⟨front, hfront⟩ := h.awaited key hseen
      rcases hfront.covers schema hfound hkey part hpart with hthere | ⟨member, hmember, -⟩
      · exact hthere
      · obtain ⟨back, hback⟩ := hfront.first
        have hfirst : next ∈ front := by
          cases front with
          | nil => cases hmember
          | cons first others =>
              rw [hpending, List.cons_append] at hback
              exact (List.cons.inj hback).1 ▸ List.mem_cons_self
        obtain ⟨around, haround, hsame, hway⟩ := hfront.beneath next hfirst own hresolve
        exact absurd (hkey.trans hsame.symm) (hpedigree.key?_ne haround (hway.trans_left hschema))

end Told

/-! ## What is ahead -/

/-- The schemas that would be visited if none were skipped. -/
def ahead (resolver : Resolver) (merge : Merge) : List Node :=
  (merge.pending.filterMap resolver.resolve).flatMap (lineage resolver)

def allProperties (resolver : Resolver) (merge : Merge) : List (String × Node) :=
  ((merge.ahead resolver).flatMap ownProperties).foldl addProperty merge.properties

def allRequired (resolver : Resolver) (merge : Merge) : List String :=
  merge.required ++ (merge.ahead resolver).flatMap requiredNames

/-- Both come to the same properties and the same required names, though these may be said
more often in one of them. -/
structure SameEnd (resolver : Resolver) (merge merge' : Merge) : Prop where
  properties : merge.allProperties resolver = merge'.allProperties resolver
  required : ∀ name, name ∈ merge.allRequired resolver ↔ name ∈ merge'.allRequired resolver

theorem ahead_of_unresolved (hpending : merge.pending = next :: rest)
    (hresolve : resolver.resolve next = none) :
    ahead resolver { merge with pending := rest } = merge.ahead resolver := by
  rw [ahead, ahead, hpending, List.filterMap_cons_none hresolve]

theorem ahead_of_resolved (hpending : merge.pending = next :: rest)
    (hresolve : resolver.resolve next = some own) :
    merge.ahead resolver =
      lineage resolver own ++ ahead resolver { merge with pending := rest } := by
  rw [ahead, ahead, hpending, List.filterMap_cons_some hresolve, List.flatMap_cons]

/-- Nothing is lost where a schema is skipped of which everything has been gathered. -/
theorem sameEnd_of_has (hpending : merge.pending = next :: rest)
    (hresolve : resolver.resolve next = some own)
    (hhas : ∀ part ∈ lineage resolver own, merge.Has part) :
    SameEnd resolver { merge with pending := rest } merge := by
  have hproperties : names ((lineage resolver own).flatMap ownProperties) ⊆
      names merge.properties := by
    intro name hname
    rw [names, List.map_flatMap, List.mem_flatMap] at hname
    obtain ⟨part, hpart, hname⟩ := hname
    exact (hhas part hpart).properties hname
  have hrequired : (lineage resolver own).flatMap requiredNames ⊆ merge.required := by
    intro name hname
    obtain ⟨part, hpart, hname⟩ := List.mem_flatMap.mp hname
    exact (hhas part hpart).required hname
  refine ⟨?_, fun name => ?_⟩
  · rw [allProperties, allProperties, ahead_of_resolved hpending hresolve, List.flatMap_append,
      List.foldl_append, foldl_addProperty_of_subset hproperties]
  · rw [allRequired, allRequired, ahead_of_resolved hpending hresolve, List.flatMap_append]
    simp only [List.mem_append]
    grind

theorem sameEnd_visit (hpedigree : Pedigree resolver found) (hown : found own)
    (hpending : merge.pending = next :: rest) (hresolve : resolver.resolve next = some own)
    (seen : List Key) :
    SameEnd resolver (Merge.visit { merge with pending := rest, seen } own) merge := by
  have hahead : merge.ahead resolver = own ::
      ahead resolver (Merge.visit { merge with pending := rest, seen } own) := by
    have hvisit : ahead resolver (Merge.visit { merge with pending := rest, seen } own) =
        ((parts own ++ rest).filterMap resolver.resolve).flatMap (lineage resolver) := rfl
    rw [ahead_of_resolved hpending hresolve, hpedigree.lineage_eq hown, hvisit,
      List.filterMap_append, List.flatMap_append]
    rfl
  refine ⟨?_, fun name => ?_⟩
  · rw [allProperties, allProperties, hahead, List.flatMap_cons, List.foldl_append]
    rfl
  · rw [allRequired, allRequired, hahead, List.flatMap_cons, ← List.append_assoc]
    rfl

theorem Told.step (h : Told resolver found merge) (hpedigree : Pedigree resolver found) :
    Told resolver found (merge.step resolver) ∧ SameEnd resolver (merge.step resolver) merge := by
  cases hpending : merge.pending with
  | nil =>
      rw [step_of_isDone (isDone_iff.mpr hpending)]
      exact ⟨h, rfl, fun _ => Iff.rfl⟩
  | cons next rest =>
      cases hresolve : resolver.resolve next with
      | none =>
          have hahead := ahead_of_unresolved hpending hresolve
          rw [step_of_unresolved hpending hresolve]
          refine ⟨h.drop hpending fun own hown => ?_, ?_, fun _ => ?_⟩
          · rw [hresolve] at hown
            cases hown
          · rw [allProperties, allProperties, hahead]
          · rw [allRequired, allRequired, hahead]
      | some own =>
          have hown : found own := h.pending next (hpending ▸ List.mem_cons_self) own hresolve
          obtain ⟨key, hkey⟩ := hpedigree.exists_key hown
          by_cases hseen : key ∈ merge.seen
          · have hknown : merge.Known own := ⟨key, hseen, hkey⟩
            rw [step_of_seen hpending hresolve hkey hseen]
            refine ⟨h.drop hpending fun same hsame => ?_, sameEnd_of_has hpending hresolve
              fun part hpart => ?_⟩
            · rwa [← Option.some.inj (hresolve.symm.trans hsame)]
            · have hway := hpedigree.inherits_of_mem_lineage hown hpart
              exact h.gathered part (hpedigree.found_of_inherits hown hway)
                (h.known_of_inherits hpedigree hpending hresolve hknown hway)
          · rw [step_of_fresh hpending hresolve hkey hseen]
            exact ⟨h.visit hpedigree hpending hresolve hkey,
              sameEnd_visit hpedigree hown hpending hresolve _⟩

theorem Told.iterate (h : Told resolver found merge) (hpedigree : Pedigree resolver found)
    (n : Nat) : SameEnd resolver ((Merge.step resolver)^[n] merge) merge := by
  induction n generalizing merge with
  | zero => exact ⟨rfl, fun _ => Iff.rfl⟩
  | succ n ih =>
      obtain ⟨hstep, hsame⟩ := h.step hpedigree
      have hrest := ih hstep
      rw [Function.iterate_succ_apply]
      exact ⟨hrest.properties.trans hsame.properties,
        fun name => (hrest.required name).trans (hsame.required name)⟩

theorem Told.of_isDone (h : Told resolver found merge) (hpedigree : Pedigree resolver found)
    {n : Nat} (hdone : ((Merge.step resolver)^[n] merge).isDone) :
    ((Merge.step resolver)^[n] merge).properties = merge.allProperties resolver ∧
      ∀ name, name ∈ ((Merge.step resolver)^[n] merge).required ↔
        name ∈ merge.allRequired resolver := by
  have hsame := h.iterate hpedigree n
  have hahead : ((Merge.step resolver)^[n] merge).ahead resolver = [] := by
    rw [ahead, isDone_iff.mp hdone]
    rfl
  refine ⟨?_, fun name => ?_⟩
  · rw [← hsame.properties, allProperties, hahead]
    rfl
  · rw [← hsame.required, allRequired, hahead, List.flatMap_nil, List.append_nil]

end Merge

/-! ## Merged properties -/

def Merge.result (merge : Merge) : List Property :=
  merge.properties.map fun (name, node) => ⟨name, node, merge.required.contains name⟩

/-- The properties of the schemas, of each name the first, required if any of them says so. -/
def firstProperties (schemas : List Node) : List Property :=
  let entries := (schemas.flatMap ownProperties).eraseDupsBy
    fun later earlier => later.1 = earlier.1
  entries.map fun (name, node) =>
    ⟨name, node, schemas.any fun schema => (Merge.requiredNames schema).contains name⟩

/-- The properties of a schema and of all that it is made of, by recursion so deep and with no
memory of what was visited. -/
def inherited? (resolver : Resolver) (depth : Nat) (schema : Node) : Option (List Property) :=
  ((resolver.resolve schema).elim (some []) (lineage? resolver depth)).map firstProperties

theorem Merge.told_start (hschema : ∀ own, resolver.resolve schema = some own → found own) :
    Told resolver found (start schema) where
  pending member hmember own hown := hschema own (List.mem_singleton.mp hmember ▸ hown)
  gathered _ _ hknown := by
    obtain ⟨_, hkey, -⟩ := hknown
    cases hkey
  awaited _ hkey := absurd hkey List.not_mem_nil

theorem lineage?_start (h : Pedigree resolver found)
    (hschema : ∀ own, resolver.resolve schema = some own → found own)
    (hdepth : resolver.store.objects.length < depth) :
    (resolver.resolve schema).elim (some []) (lineage? resolver depth) =
      some ((Merge.start schema).ahead resolver) := by
  rw [Merge.ahead, Merge.start]
  cases hresolve : resolver.resolve schema with
  | none => rw [List.filterMap_cons_none hresolve]; rfl
  | some own =>
      rw [List.filterMap_cons_some hresolve, Option.elim_some,
        h.lineage?_eq (hschema own hresolve) hdepth]
      simp

theorem isDone_of_passes {kept : Node → Prop} (hpasses : Passes resolver found kept)
    (hkeyed : ∀ {own}, found own → own.key? ≠ none) (hschema : found schema) :
    ∃ n, ((Merge.step resolver)^[n] (Merge.start schema)).isDone ∧
      mergedProperties resolver schema =
        ((Merge.step resolver)^[n] (Merge.start schema)).result := by
  let size := resolver.limit + schema.document.root.size
  refine ⟨2 ^ (Nat.log2 size + 64), ?_, ?_⟩
  · have hgrounds := grounds_grounds resolver schema
    refine Merge.isDone_iterate (hgrounds.passes.and hpasses) (fun h => h.1) (fun h => hkeyed h.2)
      ?_ ?_
    · refine ⟨fun _ hmem => absurd hmem List.not_mem_nil, fun own hown => ?_⟩
      rw [List.mem_singleton.mp hown]
      exact ⟨(Standing.of_mem (mem_grounds_self resolver schema)).grounded, hschema⟩
    · have hroom := (Merge.room_le (grounds resolver schema) []).trans
        (sum_grounds_le resolver schema)
      have hsize : size < 2 ^ (Nat.log2 size + 1) := Nat.lt_log2_self
      have hpow : 2 ^ (Nat.log2 size + 1) ≤ 2 ^ (Nat.log2 size + 64) :=
        Nat.pow_le_pow_right (by omega) (by omega)
      simp only [Merge.start, List.length_singleton]
      omega
  · rw [mergedProperties, Merge.result, ← Merge.exhaust_eq_iterate]

theorem isDone_mergedProperties {documents : List (String × Json)}
    (hstore : resolver.store = .ofDocuments documents) (hschema : Seated resolver.store schema) :
    ∃ n, ((Merge.step resolver)^[n] (Merge.start schema)).isDone ∧
      mergedProperties resolver schema =
        ((Merge.step resolver)^[n] (Merge.start schema)).result := by
  refine isDone_of_passes (Passes.placed hstore) (fun h => ?_) hschema.2
  obtain ⟨number, path, hkey⟩ := h
  simp [hkey]

theorem inherited?_eq (h : Pedigree resolver found)
    (hschema : ∀ own, resolver.resolve schema = some own → found own)
    (hdepth : resolver.store.objects.length < depth) {n : Nat}
    (hdone : ((Merge.step resolver)^[n] (Merge.start schema)).isDone) :
    inherited? resolver depth schema =
      some ((Merge.step resolver)^[n] (Merge.start schema)).result := by
  obtain ⟨hproperties, hrequired⟩ := (Merge.told_start hschema).of_isDone h hdone
  have hentries : (((Merge.start schema).ahead resolver).flatMap ownProperties).eraseDupsBy
      (fun later earlier => later.1 = earlier.1) =
        ((Merge.step resolver)^[n] (Merge.start schema)).properties := by
    rw [hproperties, Merge.allProperties, Merge.foldl_addProperty_eq]
    simp [Merge.start, Merge.names]
  have hnames : ∀ name, (((Merge.start schema).ahead resolver).any fun own =>
      (Merge.requiredNames own).contains name) =
        ((Merge.step resolver)^[n] (Merge.start schema)).required.contains name := by
    intro name
    rw [Bool.eq_iff_iff, List.any_eq_true, List.contains_iff_mem, hrequired, Merge.allRequired]
    simp [Merge.start]
  rw [inherited?, lineage?_start h hschema hdepth, Option.map_some, firstProperties, hentries,
    Merge.result]
  simp only [hnames]

/--
However the documents refer to each other, merging the properties of one of their schemas, or
of what it resolves to, comes to an end, and no two of the properties have one name.  If
nothing that the schema is made of is made of itself, they are the properties that it has by
recursion with no memory of what was visited, which ends in no more levels than there are
objects and one more.
-/
theorem mergedProperties_eq_inherited (documents : List (String × Json)) (resolver : Resolver)
    (hstore : resolver.store = .ofDocuments documents) (document : Node)
    (hdocument : document ∈ resolver.store.documents) (node : Node) (hnode : document.Within node)
    (schema : Node) (hschema : schema = node ∨ resolver.resolve node = some schema) :
    (∃ n, let merge := (Merge.step resolver)^[n] (Merge.start schema)
      merge.isDone ∧ mergedProperties resolver schema = merge.result) ∧
    ((mergedProperties resolver schema).map Property.name).Nodup ∧
    (Acyclic resolver schema → ∀ depth, resolver.store.objects.length < depth →
      inherited? resolver depth schema = some (mergedProperties resolver schema)) := by
  have horderly : resolver.store.Orderly := hstore ▸ .ofDocuments documents
  have hseatedNode : Seated resolver.store node :=
    ⟨(Faithful.of_document horderly hdocument hnode.exists_path.1).mirrors,
      horderly.placed_of_within hdocument hnode⟩
  have hseated : Seated resolver.store schema := by
    rcases hschema with rfl | hresolve
    · exact hseatedNode
    · exact (passes_seated hstore).resolve hseatedNode hresolve
  obtain ⟨n, hdone, hmerged⟩ := isDone_mergedProperties hstore hseated
  refine ⟨⟨n, hdone, hmerged⟩, nodup_mergedProperties resolver schema, fun hacyclic depth hdepth => ?_⟩
  rw [hmerged]
  exact inherited?_eq (hacyclic.pedigree hstore hseated) (fun own hown => ⟨own, hown, .refl⟩) hdepth hdone

def animals : Json :=
  .object [
    ("Animal", .object [("required", .array [.string "name"]),
      ("properties", .object [("name", .object []), ("kind", .object [])])]),
    ("Pet", .object [("allOf", .array [.object [("$ref", .string "#/Animal")]]),
      ("required", .array [.string "kind"]), ("properties", .object [("owner", .object [])])]),
    ("Guppy", .object [("allOf", .array [.object [("$ref", .string "#/Pet")],
        .object [("$ref", .string "#/Missing")],
        .object [("$ref", .string "#/Animal"), ("summary", .string "A fish")]]),
      ("properties", .object [("kind", .object []), ("size", .object [])])])]

theorem mergedProperties_eq_inherited_guppy :
    let uri := "animals.json"
    let resolver := Resolver.new (.ofDocuments [(uri, animals)]) uri
    let guppy := (Store.nextRoot .empty uri animals).step "Guppy"
    (mergedProperties resolver guppy).map (fun property => (property.name, property.required)) =
        [("kind", true), ("size", false), ("owner", false), ("name", true)] ∧
      Acyclic resolver guppy ∧ resolver.store.objects.length < 17 ∧
      inherited? resolver 17 guppy = some (mergedProperties resolver guppy) := by
  intro uri resolver guppy
  let document := Store.nextRoot .empty uri animals
  have hguppy : document.Within guppy :=
    .child .root (Node.mem_children_of_step fun hnull => by
      have hobject : guppy.isObject := by decide +kernel
      simp [Node.isObject, guppy, document, hnull, Json.isObject, Json.asObject?] at hobject)
  obtain ⟨hmerged, hdepth, hends⟩ : (mergedProperties resolver guppy).map
        (fun property => (property.name, property.required)) =
          [("kind", true), ("size", false), ("owner", false), ("name", true)] ∧
      resolver.store.objects.length < 17 ∧
      ∀ own ∈ resolver.resolve guppy, ∀ first ∈ bases resolver own,
        ∀ second ∈ bases resolver first, (bases resolver second).isEmpty := by
    decide +kernel
  have hacyclic : Acyclic resolver guppy := acyclic_of_acc fun own hown =>
    .intro own fun first hfirst => .intro first fun second hsecond =>
      .intro second fun last hlast => by
        have hempty := hends own hown first (mem_bases.mpr hfirst) second (mem_bases.mpr hsecond)
        have hmem := mem_bases.mpr hlast
        rw [List.isEmpty_iff.mp hempty] at hmem
        cases hmem
  refine ⟨hmerged, hacyclic, hdepth, ?_⟩
  exact (mergedProperties_eq_inherited _ resolver rfl document
    (Store.nextRoot_mem_ofDocuments uri animals []) guppy hguppy guppy (.inl rfl)).2.2 hacyclic
    17 hdepth

end SpecForm.Form
