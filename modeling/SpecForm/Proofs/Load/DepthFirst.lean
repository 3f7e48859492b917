import SpecForm.Proofs.Load.Once
import SpecForm.Proofs.Store.Renumbering

/-!
# Loading as a depth-first search

The pending URIs of a run are what a depth-first search still has to visit.  If
only so many URIs can be reached from an entry, both come to an end, with the same
documents, after asking for the same URIs in the same order, and with the same
outcome.
-/

namespace SpecForm.Load

/-! ## Documents by themselves -/

def targetsOf (uri : String) (root : Json) : List String :=
  targets (Store.empty.register uri root).1 (Store.empty.nextRoot uri root)

theorem nextRoot_eq_renumbered (store : Store) (uri : String) (root : Json) :
    store.nextRoot uri root =
      (Store.empty.nextRoot uri root).renumbered (· + store.documents.length) := by
  simp [Store.nextRoot, Store.empty, Node.renumbered, Node.rootOf, Document.renumbered,
    Identity.renumbered]

theorem provenance?_register_renumbered {store : Store} (hloaded : store.RecordsLoaded)
    {uri : String} (hfresh : store.get? uri = none) (root : Json) {node : Node}
    (hnode : node.document = (Store.empty.nextRoot uri root).document) :
    (store.register uri root).1.provenance? (node.renumbered (· + store.documents.length)) =
      (Store.empty.register uri root).1.provenance? node := by
  have hkey : node.key? = some (0, node.pointer) := by
    rw [Node.key?, hnode]
    rfl
  have hnone : store.origins.lookup (Key.renumbered (· + store.documents.length)
      (0, node.pointer)) = none := by
    rw [Option.eq_none_iff_forall_ne_some]
    intro provenance hold
    have := hloaded _ provenance hold
    simp [Key.renumbered] at this
  have hempty : Store.empty.get? uri = none := rfl
  let number := (· + store.documents.length)
  have hrecords : Store.records ((Store.empty.nextRoot uri root).renumbered number) =
      (Store.records (Store.empty.nextRoot uri root)).map fun entry =>
        (entry.1.renumbered number, entry.2) := Store.records_renumbered _
  rw [← nextRoot_eq_renumbered] at hrecords
  rw [Store.provenance?, Store.provenance?, Node.key?_renumbered, hkey, Option.map_some,
    Option.bind_some, Option.bind_some, Store.lookup_register hfresh,
    Store.lookup_register hempty, hnone]
  change (Store.records (store.nextRoot uri root)).lookup _ = _
  rw [hrecords, lookup_map_fst (Key.renumbered_injective (add_left_injective _))]
  rfl

theorem targets_nextRoot {store : Store} (hloaded : store.RecordsLoaded) {uri : String}
    (hfresh : store.get? uri = none) (root : Json) :
    targets (store.register uri root).1 (store.nextRoot uri root) = targetsOf uri root := by
  rw [nextRoot_eq_renumbered]
  exact congrArg List.eraseDups (locatedIn_map (fun _ _ => rfl)
    (fun _ hother => provenance?_register_renumbered hloaded hfresh root hother) _ _ rfl)

/-! ## The search -/

structure Search where
  store : Store
  asked : List String

/-- A search may not come back, and ends at once when it fails. -/
abbrev SearchM := ExceptT Fault (StateT Search Option)

namespace Search

def isKnown (search : Search) (uri : String) : Bool :=
  search.store.contains uri || search.asked.contains uri

def ask (found : String → Except Fault Json) (uri : String) : SearchM (Except Fault Json) := do
  modify fun search => { search with asked := search.asked ++ [uri] }
  return found uri

def add (uri : String) (root : Json) : SearchM Node := do
  let (store, document) := (← get).store.register uri root
  modify fun search => { search with store := store }
  return document

def targets (document : Node) : SearchM (List String) :=
  return Load.targets (← get).store document

/-- A URI that is mapped or was tried needs no visit.  Visits inside each other may only be
so deep, and do not come back from deeper. -/
def visit (found : String → Except Fault Json) : Nat → String → SearchM Unit
  | 0, _ => ExceptT.mk fun _ => none
  | depth + 1, uri => do
      if (← get).isKnown uri then return ()
      else
        match ← ask found uri with
        | .error fault => if Loading.mayLeaveOut fault then return () else throw fault
        | .ok root => (← targets (← add uri root)).forM (visit found depth)

def validated (entry : String) (document : Node) : SearchM Loaded := do
  let store := (← get).store
  match store.validate with
  | .error fault => throw fault
  | .ok () => return ⟨store, entry, document⟩

/-- The entry has to be found, and the whole set is validated in the end. -/
def loadAll (found : String → Except Fault Json) (depth : Nat) (entry : String) :
    SearchM Loaded := do
  match ← ask found entry with
  | .error fault => throw fault
  | .ok root =>
      let document ← add entry root
      (← targets document).forM (visit found depth)
      validated entry document

variable {found : String → Except Fault Json} {depth : Nat} {search : Search}
  {uri : String} {uris rest : List String} {result : Except Fault Unit × Search}

def visitAll (found : String → Except Fault Json) (depth : Nat) (uris : List String)
    (search : Search) : Option (Except Fault Unit × Search) :=
  (uris.forM (visit found depth)).run.run search

theorem visitAll_nil : visitAll found depth [] search = some (.ok (), search) := rfl

theorem visitAll_zero_cons : visitAll found 0 (uri :: rest) search = none := rfl

section

variable {α : Type}

theorem run_get_bind (next : Search → SearchM α) :
    (get >>= next).run.run search = (next search).run.run search := rfl

theorem run_ask_bind (next : Except Fault Json → SearchM α) :
    (ask found uri >>= next).run.run search =
      (next (found uri)).run.run ⟨search.store, search.asked ++ [uri]⟩ := rfl

theorem run_add_bind {root : Json} (next : Node → SearchM α) :
    (add uri root >>= next).run.run search =
      (next (search.store.register uri root).2).run.run
        ⟨(search.store.register uri root).1, search.asked⟩ := rfl

theorem run_targets_bind {document : Node} (next : List String → SearchM α) :
    (targets document >>= next).run.run search =
      (next (Load.targets search.store document)).run.run search := rfl

end

theorem run_validated (entry : String) (document : Node) :
    (validated entry document).run.run search =
      some (search.store.validate.map fun _ => ⟨search.store, entry, document⟩, search) := by
  rw [validated, run_get_bind]
  dsimp only
  cases search.store.validate <;> rfl

theorem run_visit (depth : Nat) (uri : String) (search : Search) :
    (visit found (depth + 1) uri).run.run search =
      if search.isKnown uri then some (.ok (), search)
      else
        match found uri with
        | .error fault =>
            some (if Loading.mayLeaveOut fault then .ok () else .error fault,
              ⟨search.store, search.asked ++ [uri]⟩)
        | .ok root =>
            visitAll found depth
              (Load.targets (search.store.register uri root).1
                (search.store.register uri root).2)
              ⟨(search.store.register uri root).1, search.asked ++ [uri]⟩ := by
  rw [visit, run_get_bind]
  split
  · rfl
  · rw [run_ask_bind]
    cases found uri with
    | error fault => dsimp only; split <;> rfl
    | ok root => rfl

theorem run_bind {α β : Type} (part : SearchM α) (next : α → SearchM β) (search : Search) :
    (part >>= next).run.run search =
      (part.run.run search).bind fun (outcome, after) =>
        match outcome with
        | .ok result => (next result).run.run after
        | .error fault => some (.error fault, after) := by
  rw [ExceptT.run_bind, StateT.run_bind]
  congr 1
  funext (outcome, after)
  cases outcome <;> rfl

theorem visitAll_append (first rest : List String) (search : Search) :
    visitAll found depth (first ++ rest) search =
      (visitAll found depth first search).bind fun (outcome, after) =>
        match outcome with
        | .ok _ => visitAll found depth rest after
        | .error fault => some (.error fault, after) := by
  unfold visitAll
  rw [List.forM_eq_forM, List.forM_append, run_bind]
  congr 1
  funext (outcome, after)
  cases outcome <;> rfl

theorem visitAll_cons (depth : Nat) (uri : String) (rest : List String) (search : Search) :
    visitAll found (depth + 1) (uri :: rest) search =
      if search.isKnown uri then visitAll found (depth + 1) rest search
      else
        match found uri with
        | .error fault =>
            if Loading.mayLeaveOut fault then
              visitAll found (depth + 1) rest ⟨search.store, search.asked ++ [uri]⟩
            else some (.error fault, ⟨search.store, search.asked ++ [uri]⟩)
        | .ok root =>
            (visitAll found depth
              (Load.targets (search.store.register uri root).1
                (search.store.register uri root).2)
              ⟨(search.store.register uri root).1, search.asked ++ [uri]⟩).bind
              fun (outcome, after) =>
                match outcome with
                | .ok _ => visitAll found (depth + 1) rest after
                | .error fault => some (.error fault, after) := by
  have hvisit : visitAll found (depth + 1) [uri] search =
      (visit found (depth + 1) uri).run.run search := by
    simp only [visitAll, List.forM_eq_forM, List.forM_cons, List.forM_nil, bind_pure_unit]
  rw [← List.singleton_append, visitAll_append, hvisit, run_visit]
  split
  · rfl
  · cases found uri with
    | error fault => dsimp only; split <;> rfl
    | ok root => rfl

theorem visitAll_succ (h : visitAll found depth uris search = some result) :
    visitAll found (depth + 1) uris search = some result := by
  induction depth generalizing uris search result with
  | zero =>
      cases uris with
      | nil => rwa [visitAll_nil] at h ⊢
      | cons uri rest =>
          rw [visitAll_zero_cons] at h
          cases h
  | succ depth ih =>
      induction uris generalizing search with
      | nil => rwa [visitAll_nil] at h ⊢
      | cons uri rest ihRest =>
          rw [visitAll_cons] at h ⊢
          by_cases hknown : search.isKnown uri
          · rw [if_pos hknown] at h ⊢
            exact ihRest h
          · rw [if_neg hknown] at h ⊢
            cases hfound : found uri with
            | error fault =>
                simp only [hfound] at h ⊢
                split
                · rename_i hleave
                  rw [if_pos hleave] at h
                  exact ihRest h
                · rename_i hleave
                  rwa [if_neg hleave] at h
            | ok root =>
                simp only [hfound, Option.bind_eq_some_iff] at h ⊢
                obtain ⟨⟨outcome, after⟩, hbelow, hafter⟩ := h
                refine ⟨(outcome, after), ih hbelow, ?_⟩
                cases outcome with
                | error fault => exact hafter
                | ok _ => exact ihRest hafter

theorem visitAll_cons_of_ok {root : Json} (hknown : ¬search.isKnown uri)
    (hfound : found uri = .ok root)
    (h : visitAll found depth
      (Load.targets (search.store.register uri root).1 (search.store.register uri root).2 ++ rest)
      ⟨(search.store.register uri root).1, search.asked ++ [uri]⟩ = some result) :
    visitAll found (depth + 1) (uri :: rest) search = some result := by
  rw [visitAll_append, Option.bind_eq_some_iff] at h
  obtain ⟨⟨outcome, after⟩, hbelow, hafter⟩ := h
  rw [visitAll_cons, if_neg hknown, hfound]
  dsimp only
  rw [hbelow, Option.bind_some]
  cases outcome with
  | error fault => exact hafter
  | ok _ => exact visitAll_succ hafter

end Search

/-! ## Runs that keep account -/

namespace Loading

variable {found : String → Except Fault Json} {loading next : Loading} {uri : String}
  {rest : List String} {steps : Nat}

theorem run_noting_found {α : Type} (uri : String) (asked : List String)
    (next : Except Fault Json → StateT (List String) Id α) :
    (noting (m := Id) found uri >>= next).run asked = (next (found uri)).run (asked ++ [uri]) := by
  rw [run_noting_bind]
  rfl

def account (found : String → Except Fault Json) (steps : Nat) (loading : Loading) :
    Option (Except Fault Store) × List String :=
  (Loading.run (noting (m := Id) found) steps loading).run loading.tried.reverse

theorem account_of_done (hpending : loading.pending = []) :
    account found (steps + 1) loading = (some (.ok loading.store), loading.tried.reverse) := by
  rw [account, Loading.run, hpending]
  rfl

theorem account_of_isKnown (hpending : loading.pending = uri :: rest)
    (hknown : loading.isKnown uri) :
    account found (steps + 1) loading = account found steps loading.skip := by
  rw [account, Loading.run, hpending]
  dsimp only
  rw [if_pos hknown]
  rfl

theorem account_of_ok (hpending : loading.pending = uri :: rest)
    (hknown : ¬loading.isKnown uri) (hnext : loading.absorb uri (found uri) = .ok next) :
    account found (steps + 1) loading = account found steps next := by
  rw [account, Loading.run, hpending]
  dsimp only
  rw [if_neg hknown, run_noting_found, hnext, account, tried_absorb hnext, List.reverse_cons]

theorem account_of_error {fault : Fault} (hpending : loading.pending = uri :: rest)
    (hknown : ¬loading.isKnown uri) (hfault : loading.absorb uri (found uri) = .error fault) :
    account found (steps + 1) loading =
      (some (.error fault), loading.tried.reverse ++ [uri]) := by
  rw [account, Loading.run, hpending]
  dsimp only
  rw [if_neg hknown, run_noting_found, hfault]
  rfl

theorem absorb_ok (hpending : loading.pending = uri :: rest) (root : Json) :
    loading.absorb uri (.ok root) = .ok ⟨(loading.store.register uri root).1,
      uri :: loading.tried, targets (loading.store.register uri root).1
        (loading.store.register uri root).2 ++ rest⟩ := by
  simp [absorb, hpending]

theorem absorb_error (hpending : loading.pending = uri :: rest) (fault : Fault) :
    loading.absorb uri (.error fault) =
      if mayLeaveOut fault then .ok ⟨loading.store, uri :: loading.tried, rest⟩
      else .error fault := by
  simp [absorb, hpending]

theorem visitAll_of_account {outcome : Except Fault Store} {asked : List String}
    (h : account found steps loading = (some outcome, asked)) :
    ∃ least, ∀ depth ≥ least, ∃ result search,
      Search.visitAll found depth loading.pending ⟨loading.store, loading.tried.reverse⟩ =
        some (result, search) ∧
      outcome = result.map (fun _ => search.store) ∧ asked = search.asked := by
  induction steps generalizing loading with
  | zero => cases h
  | succ steps ih =>
      cases hpending : loading.pending with
      | nil =>
          rw [account_of_done hpending] at h
          cases h
          exact ⟨0, fun depth _ => ⟨.ok (), _, Search.visitAll_nil, rfl, rfl⟩⟩
      | cons uri rest =>
          have hsame : (Search.mk loading.store loading.tried.reverse).isKnown uri =
              loading.isKnown uri := by
            simp [Search.isKnown, Loading.isKnown]
          suffices hvisit : ∃ least, ∀ depth ≥ least, ∃ result search,
              Search.visitAll found (depth + 1) (uri :: rest)
                ⟨loading.store, loading.tried.reverse⟩ = some (result, search) ∧
              outcome = result.map (fun _ => search.store) ∧ asked = search.asked by
            obtain ⟨least, hleast⟩ := hvisit
            refine ⟨least + 1, fun depth hdepth => ?_⟩
            obtain ⟨depth, rfl⟩ := Nat.exists_eq_add_of_le' (Nat.le_of_add_left_le hdepth)
            exact hleast depth (by omega)
          by_cases hknown : loading.isKnown uri
          · rw [account_of_isKnown hpending hknown] at h
            obtain ⟨least, hleast⟩ := ih h
            refine ⟨least, fun depth hdepth => ?_⟩
            rw [Search.visitAll_cons, hsame, if_pos hknown]
            simpa [Loading.skip, hpending] using hleast (depth + 1) (by omega)
          · cases hfound : found uri with
            | ok root =>
                rw [account_of_ok hpending hknown (hfound ▸ absorb_ok hpending root)] at h
                obtain ⟨least, hleast⟩ := ih h
                refine ⟨least, fun depth hdepth => ?_⟩
                obtain ⟨result, search, hvisit, hsearch⟩ := hleast depth hdepth
                rw [List.reverse_cons] at hvisit
                exact ⟨result, search,
                  Search.visitAll_cons_of_ok (hsame ▸ hknown) hfound hvisit, hsearch⟩
            | error fault =>
                have habsorb := hfound ▸ absorb_error hpending fault
                by_cases hleave : mayLeaveOut fault
                · rw [if_pos hleave] at habsorb
                  rw [account_of_ok hpending hknown habsorb] at h
                  obtain ⟨least, hleast⟩ := ih h
                  refine ⟨least, fun depth hdepth => ?_⟩
                  rw [Search.visitAll_cons, hsame, if_neg hknown]
                  simpa [hfound, hleave] using hleast (depth + 1) (by omega)
                · rw [if_neg hleave] at habsorb
                  rw [account_of_error hpending hknown habsorb] at h
                  cases h
                  refine ⟨0, fun depth _ => ⟨.error fault,
                    ⟨loading.store, loading.tried.reverse ++ [uri]⟩, ?_, rfl, rfl⟩⟩
                  rw [Search.visitAll_cons, hsame, if_neg hknown, hfound]
                  simp only [hleave, if_false, Bool.false_eq_true]

end Loading

/-! ## Coming to an end -/

inductive Reachable (found : String → Except Fault Json) (entry : String) : String → Prop where
  | entry : Reachable found entry entry
  | target {uri target : String} {root : Json} : Reachable found entry uri →
      found uri = .ok root → target ∈ targetsOf uri root → Reachable found entry target

variable {found : String → Except Fault Json} {entry : String}

theorem finite_reachable {places : List String} (hentry : entry ∈ places)
    (hclosed : ∀ uri ∈ places, (found uri).toOption.elim [] (targetsOf uri) ⊆ places) :
    {uri | Reachable found entry uri}.Finite := by
  refine places.finite_toSet.subset fun uri huri => ?_
  induction huri with
  | entry => exact hentry
  | target _ hfound htarget ih =>
      have hsubset := hclosed _ ih
      rw [hfound] at hsubset
      exact hsubset htarget

namespace Loading

variable {loading next last : Loading}

structure Confined (found : String → Except Fault Json) (entry : String) (loading : Loading) :
    Prop extends loading.AskedOnce entry where
  recorded : loading.store.RecordsLoaded
  reachable : ∀ uri, uri ∈ loading.tried ∨ uri ∈ loading.pending → Reachable found entry uri

namespace Confined

theorem start {root : Json} (hfound : found entry = .ok root) :
    (Loading.start entry root).Confined found entry := by
  refine ⟨.start entry root, Store.recordsLoaded_ofDocuments [(entry, root)], ?_⟩
  rw [Loading.start_eq]
  rintro uri (htried | hpending)
  · rw [List.mem_singleton.mp htried]
    exact .entry
  · exact .target .entry hfound hpending

theorem step (h : loading.Confined found entry)
    (hstep : Step (fun uri outcome => outcome = found uri) loading next) :
    next.Confined found entry := by
  have honce := h.toAskedOnce.step hstep
  cases hstep with
  | skip hpending _ =>
      refine ⟨honce, h.recorded, fun uri huri => h.reachable uri (huri.imp_right fun hrest => ?_)⟩
      exact hpending ▸ List.mem_cons_of_mem _ hrest
  | @leaveOut uri rest hpending _ _ =>
      refine ⟨honce, h.recorded, fun other hother => h.reachable other ?_⟩
      rw [hpending]
      grind
  | @register uri rest root hpending hknown hanswer =>
      have hfresh := get?_of_not_isKnown hknown
      have hhead : Reachable found entry uri := h.reachable uri (.inr (by simp [hpending]))
      refine ⟨honce, h.recorded.register uri root, fun other hother => ?_⟩
      rw [targets_nextRoot h.recorded hfresh] at hother
      simp only [List.mem_cons, List.mem_append] at hother
      rcases hother with (rfl | htried) | htarget | hrest
      · exact hhead
      · exact h.reachable other (.inl htried)
      · exact .target hhead hanswer.symm htarget
      · exact h.reachable other (.inr (hpending ▸ List.mem_cons_of_mem _ hrest))

theorem length_tried_le (h : loading.Confined found entry)
    (hfinite : {uri | Reachable found entry uri}.Finite) :
    loading.tried.length ≤ hfinite.toFinset.card := by
  rw [← List.toFinset_card_of_nodup h.nodup]
  refine Finset.card_le_card fun uri huri => ?_
  exact hfinite.mem_toFinset.mpr (h.reachable uri (.inl (List.mem_toFinset.mp huri)))

end Confined

theorem exists_account (hfinite : {uri | Reachable found entry uri}.Finite) (loading : Loading)
    (h : loading.Confined found entry) :
    ∃ outcome asked least, ∀ steps ≥ least,
      account found steps loading = (some outcome, asked) := by
  cases hpending : loading.pending with
  | nil =>
      refine ⟨.ok loading.store, loading.tried.reverse, 1, fun steps hsteps => ?_⟩
      obtain ⟨steps, rfl⟩ := Nat.exists_eq_add_of_le' hsteps
      exact account_of_done hpending
  | cons uri rest =>
      by_cases hknown : loading.isKnown uri
      · obtain ⟨outcome, asked, least, hleast⟩ :=
          exists_account hfinite loading.skip (h.step (step_skip hpending hknown))
        refine ⟨outcome, asked, least + 1, fun steps hsteps => ?_⟩
        obtain ⟨steps, rfl⟩ := Nat.exists_eq_add_of_le' (Nat.le_of_add_left_le hsteps)
        rw [account_of_isKnown hpending hknown]
        exact hleast steps (by omega)
      · cases habsorb : loading.absorb uri (found uri) with
        | error fault =>
            refine ⟨.error fault, loading.tried.reverse ++ [uri], 1, fun steps hsteps => ?_⟩
            obtain ⟨steps, rfl⟩ := Nat.exists_eq_add_of_le' hsteps
            exact account_of_error hpending hknown habsorb
        | ok next =>
            have hnext := h.step (step_absorb hpending hknown rfl habsorb)
            obtain ⟨outcome, asked, least, hleast⟩ := exists_account hfinite next hnext
            refine ⟨outcome, asked, least + 1, fun steps hsteps => ?_⟩
            obtain ⟨steps, rfl⟩ := Nat.exists_eq_add_of_le' (Nat.le_of_add_left_le hsteps)
            rw [account_of_ok hpending hknown habsorb]
            exact hleast steps (by omega)
-- Either another URI has been tried, and only so many can be reached, or fewer are pending.
termination_by (hfinite.toFinset.card - loading.tried.length, loading.pending.length)
decreasing_by
  · apply Prod.Lex.right
    simp [skip, hpending]
  · have hroom := hnext.length_tried_le hfinite
    rw [tried_absorb habsorb, List.length_cons] at hroom
    apply Prod.Lex.left
    rw [tried_absorb habsorb, List.length_cons]
    omega

end Loading

/-! ## Searching from an entry -/

namespace Search

/-- How the search from an entry ends, and what it has asked for by then; `none` if it does
not come back. -/
def outcome (found : String → Except Fault Json) (depth : Nat) (entry : String) :
    Option (Except Fault Loaded × List String) :=
  ((loadAll found depth entry).run.run ⟨.empty, []⟩).map fun (outcome, search) =>
    (outcome, search.asked)

theorem outcome_of_error {fault : Fault} (hfound : found entry = .error fault) (depth : Nat) :
    outcome found depth entry = some (.error fault, [entry]) := by
  rw [outcome, loadAll, run_ask_bind, hfound]
  rfl

theorem outcome_of_ok {root : Json} (hfound : found entry = .ok root) (depth : Nat) :
    outcome found depth entry =
      (visitAll found depth (Loading.start entry root).pending
        ⟨(Loading.start entry root).store, [entry]⟩).map fun (outcome, search) =>
          (outcome.bind fun _ => search.store.validate.map fun _ =>
            ⟨search.store, entry, Store.empty.nextRoot entry root⟩, search.asked) := by
  have hdocument : (Store.empty.register entry root).2 = Store.empty.nextRoot entry root := by
    rw [Store.register_of_fresh rfl]
  rw [outcome, loadAll, run_ask_bind, hfound]
  dsimp only
  rw [run_add_bind, run_targets_bind, run_bind, hdocument, Loading.start_eq]
  change ((visitAll found depth _ _).bind _).map _ = _
  rw [Option.map_bind, Option.map_eq_bind]
  congr 1
  funext (result, search)
  cases result with
  | error fault => rfl
  | ok _ => exact congrArg (Option.map _) (run_validated entry _)

end Search

theorem Loading.Step.extends {answers : Answers} {loading next : Loading}
    (h : Step answers loading next) : loading.store.Extends next.store := by
  cases h with
  | skip _ _ | leaveOut _ _ _ => exact .refl _
  | register _ _ _ => exact Store.extends_register _ _ _

theorem Loading.Steps.extends {answers : Answers} {loading last : Loading}
    (h : Steps answers loading last) : loading.store.Extends last.store := by
  induction h with
  | refl => exact .refl _
  | tail _ hstep ih => exact ih.trans hstep.extends

theorem Loading.extends_account {steps : Nat} {loading : Loading} {store : Store}
    {asked : List String} (h : account found steps loading = (some (.ok store), asked)) :
    loading.store.Extends store := by
  let fetch : String → Id (Except Fault Json) := found
  have hfetch : ∀ uri, Returns (fetch uri) fun _ => True := fun _ => returns_id.mpr trivial
  obtain ⟨last, hsteps, rfl, -⟩ :=
    of_returns_id (returns_run_noting hfetch steps loading) h store rfl
  exact Steps.extends hsteps

theorem run_gather_of_error {fault : Fault} (hfound : found entry = .error fault) (steps : Nat) :
    (gather (noting (m := Id) found) steps entry).run [] = (some (.error fault), [entry]) := by
  rw [gather, Loading.run_noting_found, hfound]
  rfl

theorem run_gather_of_ok {root : Json} (hfound : found entry = .ok root) (steps : Nat) :
    (gather (noting (m := Id) found) steps entry).run [] =
      ((Loading.account found steps (.start entry root)).1.map
        (·.bind (Loaded.ofStore · entry)),
      (Loading.account found steps (.start entry root)).2) := by
  rw [gather, Loading.run_noting_found, hfound]
  rfl

theorem outcome_of_gather {outcome : Except Fault Loaded} {asked : List String} {steps : Nat}
    (h : (gather (noting (m := Id) found) steps entry).run [] = (some outcome, asked)) :
    ∃ least, ∀ depth ≥ least, Search.outcome found depth entry = some (outcome, asked) := by
  cases hfound : found entry with
  | error fault =>
      rw [run_gather_of_error hfound] at h
      cases h
      exact ⟨0, fun depth _ => Search.outcome_of_error hfound depth⟩
  | ok root =>
      rcases haccount : Loading.account found steps (.start entry root) with ⟨result, told⟩
      rw [run_gather_of_ok hfound, haccount] at h
      obtain ⟨houtcome, rfl⟩ := Prod.mk.inj h
      obtain ⟨stored, rfl, rfl⟩ := Option.map_eq_some_iff.mp houtcome
      obtain ⟨least, hleast⟩ := Loading.visitAll_of_account haccount
      refine ⟨least, fun depth hdepth => ?_⟩
      obtain ⟨visited, search, hvisit, rfl, rfl⟩ := hleast depth hdepth
      rw [Search.outcome_of_ok hfound]
      change (Search.visitAll found depth _ ⟨_, (Loading.start entry root).tried.reverse⟩).map _ = _
      rw [hvisit]
      cases visited with
      | error fault => rfl
      | ok _ =>
          have hentry : search.store.get? entry = some (Store.empty.nextRoot entry root) := by
            apply (Loading.extends_account haccount).mapped
            rw [Loading.start_eq]
            exact Store.get?_register_of_fresh rfl root
          refine congrArg some (Prod.ext ?_ rfl)
          change search.store.validate.map _ = Loaded.ofStore search.store entry
          rw [Loaded.ofStore, hentry]

/--
The loader's pending URIs are what a depth-first search has still to visit.  If only so many
URIs can be reached from an entry, the search comes back when its visits may go deep enough,
and a run ends when it is given steps enough; whenever a run has ended, with whatever number
of steps, it has the outcome of the search and has asked for the same URIs in the same order.
That is also what loading gives, wherever documents are fetched so and the entry is named so.
-/
theorem exists_outcome_run (hfinite : {uri | Reachable found entry uri}.Finite) :
    ∃ outcome asked,
      (∃ least, ∀ depth ≥ least, Search.outcome found depth entry = some (outcome, asked)) ∧
      (∃ least, ∀ steps ≥ least,
        (gather (noting (m := Id) found) steps entry).run [] = (some outcome, asked)) ∧
      (∀ steps, ((gather (noting (m := Id) found) steps entry).run []).1 ≠ none →
        (gather (noting (m := Id) found) steps entry).run [] = (some outcome, asked)) ∧
      ∀ (world : World Id) (retry : Retry) (name : String), world.fetch retry = found →
        absoluteUri world.directory name = .ok entry → ∀ steps,
        loadNoting world retry steps name = (gather (noting (m := Id) found) steps entry).run [] ∧
        load world retry steps name =
          ((gather (noting (m := Id) found) steps entry).run []).1 := by
  have hends : ∃ outcome asked least, ∀ steps ≥ least,
      (gather (noting (m := Id) found) steps entry).run [] = (some outcome, asked) := by
    cases hfound : found entry with
    | error fault => exact ⟨.error fault, [entry], 0, fun steps _ => run_gather_of_error hfound steps⟩
    | ok root =>
        obtain ⟨result, asked, least, hleast⟩ :=
          Loading.exists_account hfinite _ (Loading.Confined.start hfound)
        refine ⟨result.bind (Loaded.ofStore · entry), asked, least, fun steps hsteps => ?_⟩
        rw [run_gather_of_ok hfound, hleast steps hsteps]
        rfl
  obtain ⟨outcome, asked, least, hleast⟩ := hends
  obtain ⟨enough, henough⟩ := outcome_of_gather (hleast least le_rfl)
  refine ⟨outcome, asked, ⟨enough, henough⟩, ⟨least, hleast⟩, fun steps hsome => ?_, ?_⟩
  · obtain ⟨other, hother⟩ := Option.ne_none_iff_exists'.mp hsome
    have hrun := Prod.ext (y := (some other, _)) hother rfl
    obtain ⟨more, hmore⟩ := outcome_of_gather hrun
    have hsame := (henough (max enough more) (le_max_left _ _)).symm.trans
      (hmore (max enough more) (le_max_right _ _))
    rw [Option.some.injEq, Prod.mk.injEq] at hsame
    rw [hrun, hsame.1, hsame.2]
  · rintro world retry name rfl huri steps
    have hload : loadNoting world retry steps name =
        (gather (noting (world.fetch retry)) steps entry).run [] := by
      rw [loadNoting, huri]
    refine ⟨hload, ?_⟩
    rw [← fst_loadNoting, hload]
    rfl

/-- A document that refers to three others.  The first of them gives itself the URI of the
second one and refers to one that is not there. -/
def branchWorld : World Id := .ofTexts "/w"
  [("/w/root.json", "[\x7b\"$ref\":\"a.json\"\x7d,\x7b\"$ref\":\"alias.json\"\x7d," ++
      "\x7b\"$ref\":\"b.json\"\x7d]"),
    ("/w/a.json", "\x7b\"$self\":\"alias.json\",\"$ref\":\"c.json\"\x7d"),
    ("/w/b.json", "\x7b\"$ref\":\"root.json\"\x7d")]

theorem exists_outcome_run_branches :
    {uri | Reachable (branchWorld.fetch ⟨1, 0⟩) "file:///w/root.json" uri}.Finite ∧
    ∃ loaded, load branchWorld ⟨1, 0⟩ 8 "root.json" = some (.ok loaded) ∧
      ∃ least, ∀ depth ≥ least,
        Search.outcome (branchWorld.fetch ⟨1, 0⟩) depth "file:///w/root.json" =
          some (.ok loaded, ["file:///w/root.json", "file:///w/a.json", "file:///w/c.json",
            "file:///w/b.json"]) := by
  have hclosed : ∀ uri ∈ ["file:///w/root.json", "file:///w/a.json", "file:///w/alias.json",
      "file:///w/b.json", "file:///w/c.json"],
      (branchWorld.fetch ⟨1, 0⟩ uri).toOption.elim [] (targetsOf uri) ⊆
        ["file:///w/root.json", "file:///w/a.json", "file:///w/alias.json",
          "file:///w/b.json", "file:///w/c.json"] := by
    decide +kernel
  have hfinite := finite_reachable List.mem_cons_self hclosed
  have hvalues : (((loadNoting branchWorld ⟨1, 0⟩ 8 "root.json").1.bind Except.toOption).map
      fun _ => (), (loadNoting branchWorld ⟨1, 0⟩ 8 "root.json").2) =
      (some (), ["file:///w/root.json", "file:///w/a.json", "file:///w/c.json",
        "file:///w/b.json"]) := by
    decide +kernel
  obtain ⟨loaded, hrun, -⟩ := exists_loaded_of_view _ hvalues
  obtain ⟨outcome, asked, houtcome, -, hended, hworld⟩ := exists_outcome_run hfinite
  obtain ⟨hnoting, hload⟩ := hworld branchWorld ⟨1, 0⟩ "root.json" rfl (by decide +kernel) 8
  have hgather := hnoting.symm.trans hrun
  have hsame := hended 8 (by rw [hgather]; exact Option.some_ne_none _)
  obtain ⟨hresult, rfl⟩ := Prod.mk.inj (hsame.symm.trans hgather)
  obtain rfl := Option.some.inj hresult
  exact ⟨hfinite, loaded, hload.trans (congrArg Prod.fst hgather), houtcome⟩

end SpecForm.Load
