import SpecForm.Proofs.Form.Variants

/-!
# How deep controls are nested

A walk that may go so many levels deep builds a control with at most one more control on any
way down from it.  A control for which no level is left holds none: its form is empty, and a
map is a plain control.  The controls of a variant are built one level deeper than those of the
model, and are built even where there is no level for them.
-/

namespace SpecForm.Form

namespace Control

def Descends (chain : List Control) : Prop :=
  chain.IsChain fun outer inner => inner ∈ outer.inside

/-- On no way down from the control are there more controls than `levels`, with itself. -/
def Shallow (levels : Nat) (control : Control) : Prop :=
  ∀ rest, Descends (control :: rest) → (control :: rest).length ≤ levels

theorem shallow_succ {levels : Nat} {control : Control}
    (h : ∀ inner ∈ control.inside, Shallow levels inner) : Shallow (levels + 1) control := by
  intro rest hchain
  cases rest with
  | nil => simp
  | cons inner rest =>
      obtain ⟨hinner, hrest⟩ := List.isChain_cons_cons.mp hchain
      have hbelow := h inner hinner rest hrest
      simp only [List.length_cons] at hbelow ⊢
      omega

theorem shallow_of_inside_eq_nil {levels : Nat} {control : Control} (h : control.inside = []) :
    Shallow (levels + 1) control :=
  shallow_succ (by simp [h])

end Control

open Control

variable {resolver : Resolver} {depth : Nat} {active : List (Key × String)} {property : Property}
  {groupName : Option String} {schema : Node} {form : String}
  {wrap : String → List Control → Control}

theorem Holds.inside_wrap (h : Holds resolver property groupName schema form wrap) (name : String)
    (controls : List Control) : (wrap name controls).inside = controls := by
  cases h <;> rfl

theorem Builds.shallow {result : Option Built}
    (h : Builds resolver depth active property groupName result) :
    ∀ built ∈ result, Shallow (depth + 1) built.1 := by
  induction h with
  | unresolved => simp
  | plain | list =>
      rintro _ ⟨⟩
      exact shallow_of_inside_eq_nil rfl
  | enclosed hholds _ | cut hholds _ =>
      rintro _ ⟨⟩
      exact shallow_of_inside_eq_nil (hholds.inside_wrap _ _)
  | expanded hholds _ _ ih =>
      rintro _ ⟨⟩
      apply shallow_succ
      intro inner hinner
      simp only [expandedOf, hholds.inside_wrap, formOf, List.mem_map, List.mem_filterMap] at hinner
      obtain ⟨built, ⟨source, hsource, hbuilt⟩, rfl⟩ := hinner
      exact ih source hsource built hbuilt
  | @map _ _ _ _ _ value _ _ _ _ ih =>
      rintro _ ⟨⟩
      apply shallow_succ
      intro inner hinner
      obtain rfl : inner = (value.getD unknownBuilt).1 := List.mem_singleton.mp hinner
      cases value with
      | none => exact shallow_of_inside_eq_nil rfl
      | some built => exact ih built rfl

theorem Varies.shallow {discriminator : Schema.Discriminator} {branch : Node} {variant : Variant}
    {interfaces : List Interface}
    (h : Varies resolver depth active discriminator branch variant interfaces) :
    ∀ control ∈ variant.controls, Shallow (max depth 1) control := by
  cases h with
  | @intro schema _ nested outcomes _ _ houtcomes hnested hcontrols =>
      intro control hcontrol
      simp only [hcontrols, hnested, formOf, List.mem_map, List.mem_filterMap] at hcontrol
      obtain ⟨built, ⟨inner, hinner, hbuilt⟩, rfl⟩ := hcontrol
      have hlevels : depth - 1 + 1 = max depth 1 := by omega
      exact hlevels ▸ (houtcomes inner hinner).shallow built hbuilt

theorem VariesAll.shallow {set : VariantSet} {interfaces : List Interface}
    (h : VariesAll resolver depth active property set interfaces) :
    ∀ variant ∈ set.variants, ∀ control ∈ variant.controls, Shallow (max depth 1) control := by
  cases h with
  | intro _ hmembers hvariants =>
      intro variant hvariant
      rw [hvariants, List.mem_map] at hvariant
      obtain ⟨entry, hentry, rfl⟩ := hvariant
      obtain ⟨branch, -, hvaries⟩ := hmembers entry hentry
      exact hvaries.shallow

theorem BuildsTop.shallow {top : TopProperty} (h : BuildsTop resolver depth active property top) :
    (∀ control ∈ top.control, Shallow (depth + 1) control) ∧
      ∀ set ∈ top.variants, ∀ variant ∈ set.variants, ∀ control ∈ variant.controls,
        Shallow (max depth 1) control := by
  cases h with
  | @intro variants built hvaries hbuilds =>
      constructor
      · intro control hcontrol
        obtain ⟨found, hfound, rfl⟩ := Option.map_eq_some_iff.mp hcontrol
        exact hbuilds.shallow found hfound
      · intro set hset
        obtain ⟨found, hfound, rfl⟩ := Option.map_eq_some_iff.mp hset
        exact (hvaries found hfound).shallow

/--
Whatever the documents and the model, be its schemas in the documents or not: a chain of
controls, each directly inside the one before, in its form, as an item or as the value of a map,
has at most one control more than there are levels if it starts at a control of the model.  If it
starts at a control of a variant, it has at most as many as there are levels, or one if there are
none.
-/
theorem length_le_of_descends (resolver : Resolver) (depth : Nat) (resource : Resource)
    (first : Control) (rest : List Control) (hchain : Descends (first :: rest)) :
    let analysis := analyze resolver depth resource
    (first ∈ analysis.controls → (first :: rest).length ≤ depth + 1) ∧
      ∀ set ∈ analysis.variantSets, ∀ variant ∈ set.variants, first ∈ variant.controls →
        (first :: rest).length ≤ max depth 1 := by
  obtain ⟨tops, htops, hcontrols, hsets, -⟩ := exists_tops resolver depth resource
  have hshallow : ∀ top ∈ tops, (∀ control ∈ top.control, Shallow (depth + 1) control) ∧
      ∀ set ∈ top.variants, ∀ variant ∈ set.variants, ∀ control ∈ variant.controls,
        Shallow (max depth 1) control := by
    intro top htop
    obtain ⟨property, -, hbuilds⟩ := Walk.exists_mem_of_forall₂ htops htop
    exact hbuilds.shallow
  dsimp only
  rw [hcontrols, hsets]
  constructor
  · intro hfirst
    obtain ⟨top, htop, hcontrol⟩ := List.mem_filterMap.mp hfirst
    exact (hshallow top htop).1 first hcontrol rest hchain
  · intro set hset variant hvariant hfirst
    obtain ⟨top, htop, hown⟩ := List.mem_filterMap.mp hset
    exact (hshallow top htop).2 set hown variant hvariant first hfirst rest hchain

def depot : Resource := ⟨"Depot",
  [⟨"shelves", .detached (.object [("items", .object [("properties", .object
      [("limits", .object [("additionalProperties", .object [("properties", .object
        [("most", .object [])])])])])])]), true⟩,
    ⟨"pet", .detached (.object [("discriminator", .object [("propertyName", .string "kind")]),
      ("oneOf", .array [.object [("properties", .object
        [("kind", .object [("const", .string "cat")]),
          ("toy", .object [("properties", .object
            [("maker", .object [("properties", .object [])])])])])]])]), false⟩], none⟩

theorem length_le_of_descends_depot :
    let analysis := analyze (.new .empty "depot.json") 2 depot
    (∃ list map value, list ∈ analysis.controls ∧ Descends [list, map, value] ∧
        [list, map, value].map typeName = ["array", "map", "group"] ∧
        [list, map, value].length ≤ 2 + 1) ∧
      ∃ set ∈ analysis.variantSets, ∃ variant ∈ set.variants, ∃ toy maker,
        toy ∈ variant.controls ∧ Descends [toy, maker] ∧ [toy, maker].length ≤ max 2 1 := by
  intro analysis
  have hcontrols : ["array", "map", "group"] ∈ analysis.controls.flatMap fun list =>
      list.inside.flatMap fun map => map.inside.map fun value =>
        [list, map, value].map typeName := by decide +kernel
  have hvariants : ["toy", "maker"] ∈ analysis.variantSets.flatMap fun set =>
      set.variants.flatMap fun variant => variant.controls.flatMap fun toy =>
        toy.inside.map fun maker => propertyNames [toy, maker] := by decide +kernel
  simp only [List.mem_flatMap, List.mem_map] at hcontrols hvariants
  constructor
  · obtain ⟨list, hlist, map, hmap, value, hvalue, htypes⟩ := hcontrols
    have hchain : Descends [list, map, value] := by simp [Descends, hmap, hvalue]
    exact ⟨list, map, value, hlist, hchain, htypes,
      (length_le_of_descends _ 2 depot list [map, value] hchain).1 hlist⟩
  · obtain ⟨set, hset, variant, hvariant, toy, htoy, maker, hmaker, -⟩ := hvariants
    have hchain : Descends [toy, maker] := by simp [Descends, hmaker]
    exact ⟨set, hset, variant, hvariant, toy, maker, htoy, hchain,
      (length_le_of_descends _ 2 depot toy [maker] hchain).2 set hset variant hvariant htoy⟩

end SpecForm.Form
