import SpecForm.Proofs.Form.PropertyNames

/-!
# Discriminators

A branch of a `oneOf` is told from the others by the value of one of its properties, the
discriminator property.  It may lead nowhere, it may lack this property, and the property may
leave open which value stands for the branch; only if one does can a variant be made of it.
-/

namespace SpecForm.Form

open Schema

variable {resolver : Resolver} {property : Property} {discriminator : Discriminator}
  {branch : Node} {tag : Keywords} {reference : Option String} {text : String}

/-! ## Discriminator values -/

/-- The value that stands for a branch, from the keywords of its discriminator property and its
reference: the only text of an enumeration, or else the text of a constant, or else the first
key of the mapping that names the reference, or else the last part of the reference. -/
inductive StandsFor (tag : Keywords) (discriminator : Discriminator) (reference : Option String) :
    String → Prop where
  | enumerated {text : String} : enumTexts tag = [text] →
      StandsFor tag discriminator reference text
  | constant {text : String} : (enumTexts tag).length ≠ 1 → tag.const.bind valueText? = some text →
      StandsFor tag discriminator reference text
  | mapped {text key target : String} {front back : List (String × String)} :
      (enumTexts tag).length ≠ 1 → tag.const.bind valueText? = none → reference = some text →
      discriminator.targets = front ++ (key, target) :: back →
      (∀ entry ∈ front, ¬targetNames entry.2 text) → targetNames target text →
      StandsFor tag discriminator reference key
  | named {text : String} : (enumTexts tag).length ≠ 1 → tag.const.bind valueText? = none →
      reference = some text → (∀ entry ∈ discriminator.targets, ¬targetNames entry.2 text) →
      StandsFor tag discriminator reference (Reference.targetName text)

def mappedName (discriminator : Discriminator) (reference : String) : String :=
  ((discriminator.targets.find? fun entry => targetNames entry.2 reference).map Prod.fst).getD
    (Reference.targetName reference)

theorem discriminatorValue?_of_length (h : (enumTexts tag).length ≠ 1) :
    discriminatorValue? tag discriminator reference =
      (tag.const.bind valueText?).or (reference.map (mappedName discriminator)) := by
  unfold discriminatorValue?
  split
  · rename_i only honly
    simp [honly] at h
  · rename_i text hconst _
    rw [hconst, Option.some_or]
  · rename_i hconst _
    rw [hconst]
    rfl
  · rename_i text hconst _
    rw [hconst, Option.none_or, Option.map_some, mappedName]
    split <;> rename_i hfind <;> rw [hfind] <;> rfl

theorem standsFor_mappedName (h : (enumTexts tag).length ≠ 1)
    (hconst : tag.const.bind valueText? = none) (hreference : reference = some text) :
    StandsFor tag discriminator reference (mappedName discriminator text) := by
  rw [mappedName]
  cases hfind : discriminator.targets.find? fun entry => targetNames entry.2 text with
  | none => exact .named h hconst hreference (by simpa using hfind)
  | some entry =>
      obtain ⟨hnames, front, back, hsplit, hfront⟩ := List.find?_eq_some_iff_append.mp hfind
      exact .mapped h hconst hreference hsplit (by simpa using hfront) hnames

theorem discriminatorValue?_eq_some_iff :
    discriminatorValue? tag discriminator reference = some text ↔
      StandsFor tag discriminator reference text := by
  constructor
  · intro h
    by_cases hlength : (enumTexts tag).length = 1
    · obtain ⟨only, honly⟩ := List.length_eq_one_iff.mp hlength
      simp only [discriminatorValue?, honly, Option.some.injEq] at h
      exact .enumerated (h ▸ honly)
    · rw [discriminatorValue?_of_length hlength, Option.or_eq_some_iff] at h
      rcases h with hconst | ⟨hnone, hmapped⟩
      · exact .constant hlength hconst
      · obtain ⟨own, hown, rfl⟩ := Option.map_eq_some_iff.mp hmapped
        exact standsFor_mappedName hlength hnone hown
  · intro h
    cases h with
    | enumerated honly => simp [discriminatorValue?, honly]
    | constant hlength hconst => rw [discriminatorValue?_of_length hlength, hconst, Option.some_or]
    | mapped hlength hconst hreference hsplit hfront hnames =>
        rename_i own target front back
        have hfind : discriminator.targets.find? (fun entry => targetNames entry.2 own) =
            some (text, target) :=
          List.find?_eq_some_iff_append.mpr ⟨hnames, _, _, hsplit, by simpa using hfront⟩
        rw [discriminatorValue?_of_length hlength, hconst, hreference, Option.none_or,
          Option.map_some, mappedName, hfind]
        rfl
    | named hlength hconst hreference hnone =>
        rw [discriminatorValue?_of_length hlength, hconst, hreference, Option.none_or,
          Option.map_some, mappedName, List.find?_eq_none.mpr hnone]
        rfl

/-! ## Branches -/

def Property.keywords (resolver : Resolver) (property : Property) : Keywords :=
  ((resolver.resolve property.schema).map Keywords.ofNode).getD (Keywords.ofJson .null)

/-- A branch leads to a schema with the discriminator property, which has these keywords. -/
def Tagged (resolver : Resolver) (discriminator : Discriminator) (branch : Node)
    (tag : Keywords) : Prop :=
  ∃ schema, resolver.resolve branch = some schema ∧
    ∃ property ∈ mergedProperties resolver schema,
      property.name = discriminator.propertyName ∧ tag = property.keywords resolver

/-- The value that stands for a branch that leads somewhere and has the discriminator property. -/
def BranchValue (resolver : Resolver) (discriminator : Discriminator) (branch : Node)
    (text : String) : Prop :=
  ∃ tag, Tagged resolver discriminator branch tag ∧
    StandsFor tag discriminator (branch.string? "$ref") text

/-- A value that a branch adds: the one that stands for it, or any text of the enumeration. -/
def Adds (resolver : Resolver) (discriminator : Discriminator) (branch : Node)
    (text : String) : Prop :=
  (∃ tag, Tagged resolver discriminator branch tag ∧ text ∈ enumTexts tag) ∨
    BranchValue resolver discriminator branch text

def tag? (resolver : Resolver) (discriminator : Discriminator) (branch : Node) :
    Option Keywords :=
  (resolver.resolve branch).bind fun schema =>
    ((mergedProperties resolver schema).find? (·.name = discriminator.propertyName)).map
      (Property.keywords resolver)

def branchValue? (resolver : Resolver) (discriminator : Discriminator) (branch : Node) :
    Option String :=
  (tag? resolver discriminator branch).bind fun tag =>
    discriminatorValue? tag discriminator (branch.string? "$ref")

def branchTexts (resolver : Resolver) (discriminator : Discriminator) (branch : Node) :
    List String :=
  (tag? resolver discriminator branch).elim [] enumTexts ++
    (branchValue? resolver discriminator branch).toList

theorem find?_eq_some_iff_of_nodup {properties : List Property} {name : String}
    (h : (properties.map Property.name).Nodup) :
    properties.find? (·.name = name) = some property ↔
      property ∈ properties ∧ property.name = name := by
  induction properties with
  | nil => simp
  | cons first rest ih =>
      rw [List.map_cons, List.nodup_cons] at h
      by_cases hfirst : first.name = name
      · rw [List.find?_cons_of_pos (by simpa using hfirst), Option.some.injEq]
        constructor
        · rintro rfl
          exact ⟨List.mem_cons_self, hfirst⟩
        · rintro ⟨hmem, hname⟩
          rcases List.mem_cons.mp hmem with hsame | hrest
          · exact hsame.symm
          · exact absurd (List.mem_map.mpr ⟨property, hrest, hname.trans hfirst.symm⟩) h.1
      · rw [List.find?_cons_of_neg (by simpa using hfirst), ih h.2, List.mem_cons]
        constructor
        · exact fun hmem => ⟨.inr hmem.1, hmem.2⟩
        · rintro ⟨rfl | hrest, hname⟩
          · exact absurd hname hfirst
          · exact ⟨hrest, hname⟩

theorem tag?_eq_some_iff :
    tag? resolver discriminator branch = some tag ↔ Tagged resolver discriminator branch tag := by
  rw [tag?, Option.bind_eq_some_iff, Tagged]
  refine exists_congr fun schema => and_congr_right fun _ => ?_
  rw [Option.map_eq_some_iff]
  simp only [find?_eq_some_iff_of_nodup (nodup_mergedProperties resolver schema), and_assoc,
    @eq_comm _ _ tag]

theorem branchValue?_eq_some_iff :
    branchValue? resolver discriminator branch = some text ↔
      BranchValue resolver discriminator branch text := by
  simp only [branchValue?, Option.bind_eq_some_iff, tag?_eq_some_iff,
    discriminatorValue?_eq_some_iff, BranchValue]

theorem mem_elim_iff {α β : Type} {found : Option α} {list : α → List β} {item : β} :
    item ∈ found.elim [] list ↔ ∃ value, found = some value ∧ item ∈ list value := by
  cases found <;> simp

theorem mem_branchTexts_iff :
    text ∈ branchTexts resolver discriminator branch ↔ Adds resolver discriminator branch text := by
  rw [branchTexts, List.mem_append, Option.mem_toList, branchValue?_eq_some_iff, Adds]
  refine or_congr_left ?_
  rw [mem_elim_iff]
  simp only [tag?_eq_some_iff]

instance : Decidable (∃ text, BranchValue resolver discriminator branch text) :=
  decidable_of_iff (branchValue? resolver discriminator branch).isSome (by
    simp only [Option.isSome_iff_exists, branchValue?_eq_some_iff])

end SpecForm.Form
