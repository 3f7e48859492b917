import Mathlib.Data.Finset.Card
import SpecForm.Proofs.Form.Levels
import SpecForm.Proofs.Form.Merging

/-!
# The lineage of a schema

A schema is made of the schemas that its parts lead to, and its lineage lists it before
their lineages.  What a schema is made of is told by its key: another one with that key has
parts with the same keys, and these lead to the same schemas, unless they are schemas
themselves, which stand deeper in the document.  So where no schema is made of itself none is
made of another one with its key, and as there are only so many keys there is a lineage.
-/

namespace SpecForm

namespace Node

variable {node other : Node}

theorem map_content_items (h : node.content = other.content) :
    node.items.map content = other.items.map content := by
  have hvalue : node.value = other.value := (Prod.mk.inj h).2
  unfold items
  rw [hvalue]
  split
  · rw [List.map_map, List.map_map]
    exact List.map_congr_left fun i _ => content_step h (toString i)
  · rfl

theorem role_congr (h : node.value = other.value) : node.role = other.role := by
  rw [role, role, h]

theorem overlay_congr (h : node.value = other.value) (target : Node) :
    node.overlay target = other.overlay target := by
  unfold overlay string?
  rw [h]

def depth (node : Node) : Nat := node.key?.elim 0 fun key => key.2.length

theorem depth_lt_step {key : Key} (h : node.key? = some key) (token : String) :
    node.depth < (node.step token).depth := by
  rw [depth, depth, key?_step, h, Option.map_some, Option.elim_some, Option.elim_some,
    Json.Pointer.child, String.length_append, String.length_append]
  exact Nat.lt_of_lt_of_le (Nat.lt_add_one _) (Nat.le_add_right _ _)

end Node

theorem Resolver.resolve_of_content {node other : Node} (resolver : Resolver)
    (h : node.content = other.content) :
    resolver.resolve node = resolver.resolve other ∨
      resolver.resolve node = some node ∧ resolver.resolve other = some other := by
  obtain ⟨hkey, hvalue⟩ := Prod.mk.inj h
  unfold resolve resolveInScope
  rw [Node.role_congr hvalue]
  cases other.role with
  | plain => exact .inr ⟨rfl, rfl⟩
  | broken => exact .inl rfl
  | reference text kind =>
      left
      dsimp only
      rw [baseOf_congr hkey]
      exact congrArg (Option.map · _) (funext (Node.overlay_congr hvalue))

namespace Form

open Relation Store

variable {resolver : Resolver} {store : Store} {schema other part last : Node} {key : Key}
  {found : Node → Prop}

/-! ## Schemas with one key -/

/-- The schemas that a schema is made of, in order.  A part that cannot be resolved is none. -/
def bases (resolver : Resolver) (schema : Node) : List Node :=
  (Merge.parts schema).filterMap resolver.resolve

theorem mem_bases : part ∈ bases resolver schema ↔ Inherits resolver schema part :=
  List.mem_filterMap

theorem Merge.map_content_parts (h : store.Mirrors schema) (h' : store.Mirrors other)
    (hkey : schema.key? = some key) (hkey' : other.key? = some key) :
    (parts schema).map Node.content = (parts other).map Node.content := by
  have hvalue : schema.value.member? "allOf" = other.value.member? "allOf" :=
    h.member?_congr h' hkey hkey' (by decide)
  have hhas : schema.has "allOf" = other.has "allOf" := by rw [Node.has, Node.has, hvalue]
  unfold parts Node.member?
  rw [hhas]
  split
  · rename_i hother
    rw [Node.member?_value_of_has hother, Node.member?_value_of_has (hhas ▸ hother),
      Option.some.injEq] at hvalue
    refine Node.map_content_items ?_
    rw [Node.content, Node.content, Node.key?_step, Node.key?_step, hkey, hkey', hvalue]
  · rfl

theorem filterMap_congr_of_map {α β γ : Type} {read : α → Option β} {value : α → γ}
    (hread : ∀ {item item'}, value item = value item' → read item = read item')
    {list list' : List α} (h : list.map value = list'.map value) :
    list.filterMap read = list'.filterMap read := by
  induction list generalizing list' with
  | nil => rw [List.map_eq_nil_iff.mp h.symm]
  | cons item rest ih =>
      cases list' with
      | nil => cases h
      | cons item' rest' =>
          obtain ⟨hitem, hrest⟩ := List.cons.inj h
          rw [List.filterMap_cons, List.filterMap_cons, hread hitem, ih hrest]

theorem map_key?_bases (resolver : Resolver) (h : store.Mirrors schema) (h' : store.Mirrors other)
    (hkey : schema.key? = some key) (hkey' : other.key? = some key) :
    (bases resolver schema).map Node.key? = (bases resolver other).map Node.key? := by
  rw [bases, bases, List.map_filterMap, List.map_filterMap]
  refine filterMap_congr_of_map (fun {member member'} hcontent => ?_)
    (Merge.map_content_parts h h' hkey hkey')
  rcases resolver.resolve_of_content hcontent with hsame | ⟨hown, hown'⟩
  · rw [hsame]
  · rw [hown, hown', Option.map_some, Option.map_some, (Prod.mk.inj hcontent).1]

theorem Merge.depth_lt_of_mem_parts (hkey : schema.key? = some key) (h : part ∈ parts schema) :
    schema.depth < part.depth := by
  obtain ⟨holder, hmember, hitem⟩ := exists_holder_of_mem_parts h
  obtain ⟨-, rfl⟩ := Node.member?_eq_some_iff.mp hmember
  obtain ⟨token, rfl⟩ := Node.exists_step_of_mem_items hitem
  have hholder : (schema.step "allOf").key? = some (key.1, Json.Pointer.child key.2 "allOf") := by
    rw [Node.key?_step, hkey, Option.map_some]
  exact (Node.depth_lt_step hkey "allOf").trans (Node.depth_lt_step hholder token)

/-- Whatever a schema is made of, another one with its key is made of, or else of a schema with
the same key, that of a part that is no reference and stands deeper. -/
theorem Inherits.of_key? (h : store.Mirrors schema) (h' : store.Mirrors other)
    (hkey : schema.key? = some key) (hkey' : other.key? = some key)
    (hpart : Inherits resolver schema part) :
    Inherits resolver other part ∨ schema.depth < part.depth ∧
      ∃ part', Inherits resolver other part' ∧ part'.key? = part.key? := by
  obtain ⟨member, hmember, hresolve⟩ := hpart
  have hcontents := Merge.map_content_parts h h' hkey hkey'
  have hmem := hcontents ▸ List.mem_map_of_mem (f := Node.content) hmember
  obtain ⟨member', hmember', hcontent⟩ := List.mem_map.mp hmem
  rcases resolver.resolve_of_content hcontent with hsame | ⟨hown', hown⟩
  · exact .inl ⟨member', hmember', hsame.trans hresolve⟩
  · obtain rfl := Option.some.inj (hown.symm.trans hresolve)
    exact .inr ⟨Merge.depth_lt_of_mem_parts hkey hmember, member', ⟨member', hmember', hown'⟩,
      (Prod.mk.inj hcontent).1⟩

/-! ## Pedigrees -/

/-- Nothing that a schema is made of is made of itself. -/
def Acyclic (resolver : Resolver) (schema : Node) : Prop :=
  ∀ own, resolver.resolve schema = some own → ∀ part,
    ReflTransGen (Inherits resolver) own part → ¬TransGen (Inherits resolver) part part

/-- Schemas of the documents with all that they are made of, of which none is made of itself. -/
structure Pedigree (resolver : Resolver) (found : Node → Prop) : Prop where
  filled : ∃ documents, resolver.store = .ofDocuments documents
  seated : ∀ {schema}, found schema → Seated resolver.store schema
  inherits : ∀ {schema part}, found schema → Inherits resolver schema part → found part
  acyclic : ∀ {schema}, found schema → ¬TransGen (Inherits resolver) schema schema

theorem acyclic_of_acc
    (h : ∀ own, resolver.resolve schema = some own → Acc (Function.swap (Inherits resolver)) own) :
    Acyclic resolver schema := by
  intro own hown part hpart hcycle
  have hacc : Acc (Function.swap (Inherits resolver)) part := by
    clear hcycle
    induction hpart with
    | refl => exact h own hown
    | tail _ hinherits ih => exact ih.inv hinherits
  exact not_rel_self_of_acc hacc.transGen (transGen_swap.mpr hcycle)

theorem Acyclic.pedigree {documents : List (String × Json)} (h : Acyclic resolver schema)
    (hstore : resolver.store = .ofDocuments documents) (hschema : Seated resolver.store schema) :
    Pedigree resolver fun part => ∃ own, resolver.resolve schema = some own ∧
      ReflTransGen (Inherits resolver) own part where
  filled := ⟨documents, hstore⟩
  seated := by
    rintro part ⟨own, hown, hpart⟩
    have hpasses := passes_seated hstore
    induction hpart with
    | refl => exact hpasses.resolve hschema hown
    | tail _ hinherits ih =>
        obtain ⟨member, hmember, hresolve⟩ := hinherits
        exact hpasses.resolve (hpasses.of_mem_parts ih hmember) hresolve
  inherits := by
    rintro part below ⟨own, hown, hpart⟩ hbelow
    exact ⟨own, hown, hpart.tail hbelow⟩
  acyclic := by
    rintro part ⟨own, hown, hpart⟩
    exact h own hown part hpart

namespace Pedigree

theorem exists_key (h : Pedigree resolver found) (hschema : found schema) :
    ∃ key, schema.key? = some key := by
  obtain ⟨number, path, hkey⟩ := (h.seated hschema).2
  exact ⟨_, hkey⟩

theorem found_of_inherits (h : Pedigree resolver found) (hschema : found schema)
    (hlast : ReflTransGen (Inherits resolver) schema last) : found last := by
  induction hlast with
  | refl => exact hschema
  | tail _ hpart ih => exact h.inherits ih hpart

/-- Of two schemas with one key the other comes to the way of the first, unless this way only
goes deeper into a document. -/
theorem meets (h : Pedigree resolver found) (hschema : found schema) (hother : found other)
    (hkey : other.key? = schema.key?) (hlast : TransGen (Inherits resolver) schema last) :
    schema.depth < last.depth ∨
      ∃ part, TransGen (Inherits resolver) other part ∧
        ReflTransGen (Inherits resolver) part last := by
  obtain ⟨key, hown⟩ := h.exists_key hschema
  induction hlast using TransGen.head_induction_on generalizing other key with
  | single hpart =>
      rcases hpart.of_key? (h.seated hschema).1 (h.seated hother).1 hown (hkey.trans hown) with
        hboth | ⟨hdepth, -⟩
      · exact .inr ⟨last, .single hboth, .refl⟩
      · exact .inl hdepth
  | @head schema part hpart hrest ih =>
      rcases hpart.of_key? (h.seated hschema).1 (h.seated hother).1 hown (hkey.trans hown) with
        hboth | ⟨hdepth, part', hpart', hsame⟩
      · exact .inr ⟨part, .single hboth, hrest.to_reflTransGen⟩
      · have hfound := h.inherits hschema hpart
        obtain ⟨below, hbelow⟩ := h.exists_key hfound
        rcases ih hfound (h.inherits hother hpart') hsame below hbelow with
          hdeeper | ⟨meet, hmeet, hon⟩
        · exact .inl (hdepth.trans hdeeper)
        · exact .inr ⟨meet, hmeet.head hpart', hon⟩

theorem key?_ne (h : Pedigree resolver found) (hschema : found schema)
    (hlast : TransGen (Inherits resolver) schema last) : last.key? ≠ schema.key? := by
  intro hkey
  have hfound := h.found_of_inherits hschema hlast.to_reflTransGen
  rcases h.meets hschema hfound hkey hlast with hdepth | ⟨part, hpart, hback⟩
  · rw [Node.depth, Node.depth, hkey] at hdepth
    exact Nat.lt_irrefl _ hdepth
  · exact h.acyclic hfound (hpart.trans_left hback)

open Classical in
noncomputable def ancestry (resolver : Resolver) (schema : Node) : Finset Key :=
  resolver.store.objectKeys.toFinset.filter fun key =>
    ∃ last, ReflTransGen (Inherits resolver) schema last ∧ last.key? = some key

open Classical in
theorem mem_ancestry : key ∈ ancestry resolver schema ↔ key ∈ resolver.store.objectKeys ∧
    ∃ last, ReflTransGen (Inherits resolver) schema last ∧ last.key? = some key := by
  rw [ancestry, Finset.mem_filter, List.mem_toFinset]

open Classical in
theorem card_ancestry_le (resolver : Resolver) (schema : Node) :
    (ancestry resolver schema).card ≤ resolver.store.objects.length :=
  (Finset.card_filter_le _ _).trans
    ((List.toFinset_card_le _).trans resolver.store.length_objectKeys_le)

theorem exists_objectKey (h : Pedigree resolver found) (hschema : found schema)
    (hpart : Inherits resolver schema part) :
    ∃ key ∈ resolver.store.objectKeys, schema.key? = some key := by
  obtain ⟨documents, hstore⟩ := h.filled
  obtain ⟨hmirrors, hplaced⟩ := h.seated hschema
  obtain ⟨member, hmember, -⟩ := hpart
  obtain ⟨holder, hholder, -⟩ := Merge.exists_holder_of_mem_parts hmember
  exact exists_objectKey_of_has (hstore ▸ .ofDocuments documents) hplaced hmirrors
    (Node.member?_eq_some_iff.mp hholder).1 (by decide)

theorem card_ancestry_lt (h : Pedigree resolver found) (hschema : found schema)
    (hpart : Inherits resolver schema part) :
    (ancestry resolver part).card < (ancestry resolver schema).card := by
  obtain ⟨key, hobject, hkey⟩ := h.exists_objectKey hschema hpart
  refine Finset.card_lt_card ((Finset.ssubset_iff_of_subset fun other hother => ?_).mpr
    ⟨key, ?_, fun hmem => ?_⟩)
  · obtain ⟨hobject, last, hlast, hother⟩ := mem_ancestry.mp hother
    exact mem_ancestry.mpr ⟨hobject, last, hlast.head hpart, hother⟩
  · exact mem_ancestry.mpr ⟨hobject, schema, .refl, hkey⟩
  · obtain ⟨-, last, hlast, hsame⟩ := mem_ancestry.mp hmem
    exact h.key?_ne hschema (.head' hpart hlast) (hsame.trans hkey.symm)

end Pedigree

/-! ## Lineages -/

/-- A schema and the lineages of the schemas that it is made of.  These may only be so deep;
there is none that is deeper. -/
def lineage? (resolver : Resolver) : Nat → Node → Option (List Node)
  | 0, _ => none
  | depth + 1, schema => do
      let lines ← (bases resolver schema).mapM (lineage? resolver depth)
      return schema :: lines.flatten

variable {depth deeper : Nat} {schemas : List Node}

theorem mapM_eq_some_iff {α β : Type} {read : α → Option β} {list : List α} {values : List β} :
    list.mapM read = some values ↔ list.map read = values.map some := by
  induction list generalizing values with
  | nil => cases values <;> simp
  | cons item rest ih =>
      rw [List.mapM_cons, List.map_cons]
      simp only [Option.bind_eq_bind, Option.bind_eq_some_iff, Option.pure_def, Option.some.injEq]
      constructor
      · rintro ⟨value, hvalue, others, hothers, rfl⟩
        rw [List.map_cons, hvalue, ih.mp hothers]
      · intro h
        cases values with
        | nil => cases h
        | cons value others =>
            obtain ⟨hvalue, hothers⟩ := List.cons.inj h
            exact ⟨value, hvalue, others, ih.mpr hothers, rfl⟩

theorem lineage?_succ_eq_some_iff :
    lineage? resolver (depth + 1) schema = some schemas ↔
      ∃ lines : List (List Node),
        (bases resolver schema).map (lineage? resolver depth) = lines.map some ∧
          schemas = schema :: lines.flatten := by
  rw [lineage?]
  simp only [Option.bind_eq_bind, Option.bind_eq_some_iff, mapM_eq_some_iff, Option.pure_def,
    Option.some.injEq]
  refine exists_congr fun lines => and_congr_right fun _ => ⟨Eq.symm, Eq.symm⟩

theorem lineage?_mono (h : lineage? resolver depth schema = some schemas) (hle : depth ≤ deeper) :
    lineage? resolver deeper schema = some schemas := by
  induction depth generalizing deeper schema schemas with
  | zero => cases h
  | succ depth ih =>
      obtain ⟨deeper, rfl⟩ := Nat.exists_eq_add_of_le' (Nat.le_of_add_left_le hle)
      obtain ⟨lines, hlines, rfl⟩ := lineage?_succ_eq_some_iff.mp h
      refine lineage?_succ_eq_some_iff.mpr ⟨lines, ?_, rfl⟩
      rw [← hlines]
      refine List.map_congr_left fun part hpart => ?_
      have hmem := List.mem_map_of_mem (f := lineage? resolver depth) hpart
      rw [hlines] at hmem
      obtain ⟨line, -, hline⟩ := List.mem_map.mp hmem
      rw [← hline, ih hline.symm (by omega)]

theorem inherits_of_mem_lineage? (h : lineage? resolver depth schema = some schemas)
    (hlast : last ∈ schemas) : ReflTransGen (Inherits resolver) schema last := by
  induction depth generalizing schema schemas with
  | zero => cases h
  | succ depth ih =>
      obtain ⟨lines, hlines, rfl⟩ := lineage?_succ_eq_some_iff.mp h
      rcases List.mem_cons.mp hlast with rfl | hbelow
      · exact .refl
      · obtain ⟨line, hline, hlast⟩ := List.mem_flatten.mp hbelow
        have hmem := List.mem_map_of_mem (f := some) hline
        rw [← hlines] at hmem
        obtain ⟨part, hpart, hread⟩ := List.mem_map.mp hmem
        exact .head (mem_bases.mp hpart) (ih hread hlast)

def lineage (resolver : Resolver) (schema : Node) : List Node :=
  (lineage? resolver (resolver.store.objects.length + 1) schema).getD []

namespace Pedigree

theorem exists_lineage (h : Pedigree resolver found) (hschema : found schema)
    (hdepth : (ancestry resolver schema).card < depth) :
    ∃ schemas, lineage? resolver depth schema = some schemas := by
  induction depth generalizing schema with
  | zero => omega
  | succ depth ih =>
      have hbases : ∀ part ∈ bases resolver schema, ∃ line,
          lineage? resolver depth part = some line := by
        intro part hpart
        have hless := h.card_ancestry_lt hschema (mem_bases.mp hpart)
        exact ih (h.inherits hschema (mem_bases.mp hpart)) (by omega)
      refine ⟨_, lineage?_succ_eq_some_iff.mpr
        ⟨(bases resolver schema).map fun part => (lineage? resolver depth part).getD [], ?_, rfl⟩⟩
      rw [List.map_map]
      refine List.map_congr_left fun part hpart => ?_
      obtain ⟨line, hline⟩ := hbases part hpart
      rw [Function.comp_apply, hline, Option.getD_some]

theorem lineage?_eq (h : Pedigree resolver found) (hschema : found schema)
    (hdepth : resolver.store.objects.length < depth) :
    lineage? resolver depth schema = some (lineage resolver schema) := by
  obtain ⟨schemas, hschemas⟩ := h.exists_lineage hschema
    (Nat.lt_add_one_of_le (card_ancestry_le resolver schema))
  rw [lineage, hschemas, Option.getD_some]
  exact lineage?_mono hschemas hdepth

theorem lineage_eq (h : Pedigree resolver found) (hschema : found schema) :
    lineage resolver schema = schema :: (bases resolver schema).flatMap (lineage resolver) := by
  have hline := h.lineage?_eq hschema
    (Nat.lt_add_one_of_le (Nat.le_add_right resolver.store.objects.length 1))
  obtain ⟨lines, hlines, heq⟩ := lineage?_succ_eq_some_iff.mp hline
  have hmap : (bases resolver schema).map (lineage? resolver (resolver.store.objects.length + 1)) =
      ((bases resolver schema).map (lineage resolver)).map some := by
    rw [List.map_map]
    exact List.map_congr_left fun part hpart =>
      h.lineage?_eq (h.inherits hschema (mem_bases.mp hpart)) (Nat.lt_add_one _)
  rw [heq, List.map_injective_iff.mpr (Option.some_injective _) (hlines.symm.trans hmap),
    List.flatMap_def]

theorem inherits_of_mem_lineage (h : Pedigree resolver found) (hschema : found schema)
    (hlast : last ∈ lineage resolver schema) : ReflTransGen (Inherits resolver) schema last :=
  inherits_of_mem_lineage? (h.lineage?_eq hschema (Nat.lt_add_one _)) hlast

end Pedigree

end Form

end SpecForm
