import SpecForm.Proofs.Form.Variants

/-!
# The order of interfaces

The interfaces of an analysis without variants list its nested forms in post-order, those
inside a form before the form itself, and the form of the model last.  A form without controls
has an interface without properties, or none: one that stands beneath itself has the interface
of the form around it.
-/

namespace SpecForm.Form

open Schema

namespace Control

mutual

/-- The nested forms of a control in post-order, with their names. -/
def forms : Control → List (String × List Control)
  | .plain _ => []
  | .group _ form controls => formsOf controls ++ [(form, controls)]
  | .list _ => []
  | .formList _ form controls => formsOf controls ++ [(form, controls)]
  | .map _ value _ => value.forms

def formsOf : List Control → List (String × List Control)
  | [] => []
  | control :: rest => control.forms ++ formsOf rest

end

theorem formsOf_map {α : Type} (control : α → Control) (list : List α) :
    formsOf (list.map control) = list.flatMap fun item => (control item).forms := by
  induction list with
  | nil => rfl
  | cons item rest ih => rw [List.map_cons, formsOf, ih, List.flatMap_cons]

theorem formsOf_filterMap {α : Type} (control : α → Option Control) (list : List α) :
    formsOf (list.filterMap control) = list.flatMap fun item => formsOf (control item).toList := by
  induction list with
  | nil => rfl
  | cons item rest ih =>
      rw [List.filterMap_cons, List.flatMap_cons, ← ih]
      cases control item with
      | none => rfl
      | some found => rw [Option.toList_some, formsOf, formsOf, formsOf, List.append_nil]

end Control

open Control

def interfacesOf (forms : List (String × List Control)) : List Interface :=
  (forms.filter fun form => !form.2.isEmpty).map fun form => ⟨form.1, propertyNames form.2, false⟩

theorem interfacesOf_append (front back : List (String × List Control)) :
    interfacesOf (front ++ back) = interfacesOf front ++ interfacesOf back := by
  simp [interfacesOf]

theorem interfacesOf_flatMap {α : Type} (forms : α → List (String × List Control))
    (list : List α) :
    interfacesOf (list.flatMap forms) = list.flatMap fun item => interfacesOf (forms item) := by
  simp only [interfacesOf, List.filter_flatMap, List.map_flatMap]

/-- The interfaces with properties are those of the nested forms, in post-order. -/
structure Lists (control : Control) (interfaces : List Interface) : Prop where
  nested : ∀ interface ∈ interfaces, interface.isTopLevel = false
  listed : interfaces.filter (·.properties ≠ []) = interfacesOf control.forms

variable {resolver : Resolver} {depth : Nat} {active : List (Key × String)} {property : Property}
  {groupName : Option String} {schema : Node} {form : String}
  {wrap : String → List Control → Control}

theorem Holds.forms_wrap (h : Holds resolver property groupName schema form wrap) (name : String)
    (controls : List Control) : (wrap name controls).forms = formsOf controls ++ [(name, controls)] := by
  cases h <;> rfl

theorem lists_formOf (h : Holds resolver property groupName schema form wrap) {built : List Built}
    (hbuilt : ∀ inner ∈ built, Lists inner.1 inner.2) :
    Lists (wrap form (formOf form built).1) (formOf form built).2 where
  nested interface hinterface := by
    rcases List.mem_append.mp hinterface with hinner | hlast
    · obtain ⟨inner, hmem, hof⟩ := List.mem_flatMap.mp hinner
      exact (hbuilt inner hmem).nested interface hof
    · rw [List.mem_singleton.mp hlast]
  listed := by
    have hinner : (built.flatMap Prod.snd).filter (·.properties ≠ []) =
        interfacesOf (formsOf (built.map Prod.fst)) := by
      rw [formsOf_map, interfacesOf_flatMap, List.filter_flatMap]
      exact List.flatMap_congr fun inner hmem => (hbuilt inner hmem).listed
    rw [h.forms_wrap, interfacesOf_append, formOf, List.filter_append, hinner]
    cases built <;> rfl

theorem Builds.lists {result : Option Built}
    (h : Builds resolver depth active property groupName result) :
    ∀ built ∈ result, Lists built.1 built.2 := by
  induction h with
  | unresolved => exact nofun
  | plain | list =>
      rintro _ ⟨⟩
      exact ⟨nofun, rfl⟩
  | enclosed h _ =>
      rintro _ ⟨⟩
      exact ⟨nofun, by rw [h.forms_wrap]; rfl⟩
  | cut h _ =>
      rintro _ ⟨⟩
      exact ⟨by simp, by rw [h.forms_wrap]; simp [interfacesOf, formsOf]⟩
  | expanded h _ _ ih =>
      rintro _ ⟨⟩
      refine lists_formOf h fun inner hinner => ?_
      obtain ⟨source, hsource, houtcome⟩ := List.mem_filterMap.mp hinner
      exact ih source hsource inner houtcome
  | @map _ _ _ _ _ value _ _ _ _ ih =>
      rintro _ ⟨⟩
      cases value with
      | none => exact ⟨nofun, rfl⟩
      | some value => exact ⟨(ih value rfl).nested, (ih value rfl).listed⟩

theorem BuildsTop.lists {top : TopProperty} (h : BuildsTop resolver depth active property top)
    (hplain : top.variants = none) :
    (∀ interface ∈ top.interfaces, interface.isTopLevel = false) ∧
      top.interfaces.filter (·.properties ≠ []) = interfacesOf (formsOf top.control.toList) := by
  cases h with
  | @intro variants built _ hbuilds =>
      obtain rfl : variants = none := Option.map_eq_none_iff.mp hplain
      cases built with
      | none => exact ⟨nofun, rfl⟩
      | some built =>
          have hlists := hbuilds.lists built rfl
          refine ⟨hlists.nested, hlists.listed.trans ?_⟩
          rw [Option.map_some, Option.toList_some, formsOf, formsOf, List.append_nil]

/--
Whatever the documents and however deep the walk may go, the interfaces of a model none of
whose properties has variants are in the order of its forms.  The last is the only one at the
top level: it has the name of the form of the model and lists the properties of its controls.
Of the others those that list any properties are, one for one, the interfaces of the nested
forms with controls, where the forms inside a form come before it, the forms of a map are
those of its values, and all else is in the order of the controls.
-/
theorem interfaces_eq_forms (resolver : Resolver) (depth : Nat) (resource : Resource)
    (hplain : (analyze resolver depth resource).variantSets = []) :
    let analysis := analyze resolver depth resource
    ∃ nested, analysis.interfaces =
        nested ++ [⟨analysis.form, propertyNames analysis.controls, true⟩] ∧
      (∀ interface ∈ nested, interface.isTopLevel = false) ∧
      nested.filter (·.properties ≠ []) =
        ((formsOf analysis.controls).filter fun (_, controls) => !controls.isEmpty).map
          fun (form, controls) => ⟨form, propertyNames controls, false⟩ := by
  obtain ⟨tops, htops, hcontrols, hsets, hinterfaces, -⟩ := exists_tops resolver depth resource
  have hlists : ∀ top ∈ tops, (∀ interface ∈ top.interfaces, interface.isTopLevel = false) ∧
      top.interfaces.filter (·.properties ≠ []) =
        interfacesOf (formsOf top.control.toList) := by
    intro top htop
    obtain ⟨property, -, hbuilds⟩ := Walk.exists_mem_of_forall₂ htops htop
    refine hbuilds.lists ?_
    rw [hsets, List.filterMap_eq_nil_iff] at hplain
    exact hplain top htop
  refine ⟨tops.flatMap TopProperty.interfaces, hinterfaces, fun interface hinterface => ?_, ?_⟩
  · obtain ⟨top, htop, hof⟩ := List.mem_flatMap.mp hinterface
    exact (hlists top htop).1 interface hof
  · rw [List.filter_flatMap, hcontrols, formsOf_filterMap]
    refine (List.flatMap_congr fun top htop => (hlists top htop).2).trans ?_
    exact (interfacesOf_flatMap _ _).symm

def order : Resource := ⟨"Order",
  [⟨"home", .detached (.object [("properties", .object
      [("street", .object []),
      ("address", .object [("properties", .object [("zip", .object [])])])])]), true⟩,
    ⟨"limits", .detached (.object [("additionalProperties", .object
      [("properties", .object [("most", .object [])])])]), false⟩,
    ⟨"tags", .detached (.object [("items", .object
      [("properties", .object [("label", .object [])])])]), false⟩], none⟩

theorem interfaces_eq_forms_order :
    let analysis := analyze (.new .empty "orders.json") 2 order
    analysis.variantSets = [] ∧
      (formsOf analysis.controls).map Prod.fst =
        ["AddressForm", "HomeForm", "LimitsValueForm", "TagForm"] ∧
      ∃ nested, analysis.interfaces =
          nested ++ [⟨"OrderForm", ["home", "limits", "tags"], true⟩] ∧
        nested.filter (·.properties ≠ []) =
          [⟨"AddressForm", ["zip"], false⟩, ⟨"HomeForm", ["street", "address"], false⟩,
            ⟨"LimitsValueForm", ["most"], false⟩, ⟨"TagForm", ["label"], false⟩] := by
  intro analysis
  have hrun : analysis.variantSets.isEmpty ∧
      (formsOf analysis.controls).map Prod.fst =
        ["AddressForm", "HomeForm", "LimitsValueForm", "TagForm"] ∧
      analysis.form = "OrderForm" ∧
      propertyNames analysis.controls = ["home", "limits", "tags"] ∧
      interfacesOf (formsOf analysis.controls) =
        [⟨"AddressForm", ["zip"], false⟩, ⟨"HomeForm", ["street", "address"], false⟩,
          ⟨"LimitsValueForm", ["most"], false⟩, ⟨"TagForm", ["label"], false⟩] := by
    decide +kernel
  obtain ⟨hempty, hnames, hform, hcontrols, hforms⟩ := hrun
  have hplain := List.isEmpty_iff.mp hempty
  obtain ⟨nested, hinterfaces, -, hlisted⟩ :=
    interfaces_eq_forms (.new .empty "orders.json") 2 order hplain
  rw [← hform, ← hcontrols]
  exact ⟨hplain, hnames, nested, hinterfaces, hlisted.trans hforms⟩

end SpecForm.Form
