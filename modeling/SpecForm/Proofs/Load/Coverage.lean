import SpecForm.Proofs.Load.Run

/-!
# What a loaded set covers

At any time of a run, whatever a loaded document refers to is mapped, tried or
pending, and what was tried is mapped unless it may be left out.
-/

namespace SpecForm

theorem Store.contains_of_get? {store : Store} {uri : String} {node : Node}
    (h : store.get? uri = some node) : store.contains uri := by
  simp [contains, h]

theorem Store.Extends.contains {before after : Store} (h : before.Extends after) {uri : String}
    (hold : before.contains uri) : after.contains uri := by
  obtain ⟨node, hnode⟩ := Option.isSome_iff_exists.mp hold
  exact contains_of_get? (h.mapped hnode)

namespace Load

theorem targets_register {store : Store} (horderly : store.Orderly) {document : Node}
    (hdocument : document ∈ store.documents) (uri : String) (root : Json) :
    targets (store.register uri root).1 document = targets store document :=
  targets_congr fun _ hother => Store.provenance?_register_of_loaded horderly hdocument hother uri
    root

namespace Loading

/-- Nothing more has to be done about a URI than the run will do. -/
def Accounted (loading : Loading) (uri : String) : Prop :=
  loading.store.contains uri ∨ uri ∈ loading.tried ∨ uri ∈ loading.pending

structure Covered (answers : Answers) (loading : Loading) : Prop where
  registered : ∃ documents, loading.store = Store.ofDocuments documents
  targets : ∀ document ∈ loading.store.documents, ∀ uri ∈ targets loading.store document,
    loading.Accounted uri
  tried : ∀ uri ∈ loading.tried, loading.store.contains uri ∨ answers.MayLeaveOut uri

variable {answers : Answers} {loading next last : Loading} {uri head : String}
  {rest : List String}

theorem Accounted.mono (h : loading.Accounted uri) (hstore : loading.store.Extends next.store)
    (htried : loading.tried ⊆ next.tried) (hpending : loading.pending = head :: rest)
    (hrest : rest ⊆ next.pending) (hhead : next.Accounted head) : next.Accounted uri := by
  rcases h with hmapped | hold | hahead
  · exact .inl (hstore.contains hmapped)
  · exact .inr (.inl (htried hold))
  · rw [hpending, List.mem_cons] at hahead
    rcases hahead with rfl | hlater
    · exact hhead
    · exact .inr (.inr (hrest hlater))

theorem Step.accounted (hstep : Step answers loading next) (h : loading.Accounted uri) :
    next.Accounted uri := by
  cases hstep with
  | skip hpending hknown =>
      refine h.mono (.refl _) (List.Subset.refl _) hpending (List.Subset.refl _) ?_
      rw [isKnown, Bool.or_eq_true, List.contains_iff_mem] at hknown
      exact hknown.imp_right .inl
  | register hpending _ _ =>
      exact h.mono (Store.extends_register _ _ _) (List.subset_cons_self _ _) hpending
        (List.subset_append_right _ _) (.inr (.inl List.mem_cons_self))
  | leaveOut hpending _ _ =>
      exact h.mono (.refl _) (List.subset_cons_self _ _) hpending (List.Subset.refl _)
        (.inr (.inl List.mem_cons_self))

theorem start_eq (entry : String) (root : Json) :
    Loading.start entry root = ⟨(Store.empty.register entry root).1, [entry],
      Load.targets (Store.empty.register entry root).1 (Store.empty.nextRoot entry root)⟩ := by
  have hfresh : Store.empty.get? entry = none := rfl
  rw [Loading.start, Store.register_of_fresh hfresh]

namespace Covered

theorem start (answers : Answers) (entry : String) (root : Json) :
    (Loading.start entry root).Covered answers := by
  have hfresh : Store.empty.get? entry = none := rfl
  rw [Loading.start_eq]
  constructor
  · exact ⟨[(entry, root)], rfl⟩
  · intro document hdocument uri huri
    obtain rfl : document = Store.empty.nextRoot entry root := by
      simpa [Store.empty] using (Store.mem_documents_register hfresh).mp hdocument
    exact .inr (.inr huri)
  · intro uri huri
    rw [List.mem_singleton.mp huri]
    exact .inl (Store.contains_of_get? (Store.get?_register_of_fresh hfresh root))

theorem step (h : loading.Covered answers) (hstep : Step answers loading next) :
    next.Covered answers := by
  obtain ⟨documents, hdocuments⟩ := h.registered
  have haccounted : ∀ document ∈ loading.store.documents,
      ∀ uri ∈ Load.targets loading.store document, next.Accounted uri :=
    fun document hdocument uri huri => hstep.accounted (h.targets document hdocument uri huri)
  cases hstep with
  | skip _ _ => exact ⟨⟨documents, hdocuments⟩, haccounted, h.tried⟩
  | @register uri rest root hpending hknown hanswer =>
      have hfresh := get?_of_not_isKnown hknown
      refine ⟨⟨documents ++ [(uri, root)], ?_⟩, ?_, ?_⟩
      · rw [Store.ofDocuments_concat, hdocuments]
      · intro document hdocument other hother
        rcases (Store.mem_documents_register hfresh).mp hdocument with hold | rfl
        · have horderly : loading.store.Orderly := hdocuments ▸ .ofDocuments documents
          rw [targets_register horderly hold] at hother
          exact haccounted document hold other hother
        · exact .inr (.inr (List.mem_append_left _ hother))
      · intro other hother
        rcases List.mem_cons.mp hother with rfl | hold
        · exact .inl (Store.contains_of_get? (Store.get?_register_of_fresh hfresh root))
        · exact (h.tried other hold).imp_left (Store.extends_register _ _ _).contains
  | leaveOut _ _ hleave =>
      refine ⟨⟨documents, hdocuments⟩, haccounted, fun other hother => ?_⟩
      rcases List.mem_cons.mp hother with rfl | hold
      · exact .inr hleave
      · exact h.tried other hold

theorem steps (h : loading.Covered answers) (hsteps : Steps answers loading last) :
    last.Covered answers := by
  induction hsteps with
  | refl => exact h
  | tail _ hstep ih => exact ih.step hstep

theorem contains_or_mayLeaveOut (h : loading.Covered answers) (hpending : loading.pending = [])
    {document : Node} (hdocument : document ∈ loading.store.documents) {uri : String}
    (huri : uri ∈ Load.targets loading.store document) :
    loading.store.contains uri ∨ answers.MayLeaveOut uri := by
  rcases h.targets document hdocument uri huri with hmapped | htried | hahead
  · exact .inl hmapped
  · exact h.tried uri htried
  · simp [hpending] at hahead

end Covered

end Loading

end Load

theorem Loaded.of_ofStore {store : Store} {uri : String} {loaded : Loaded}
    (h : ofStore store uri = .ok loaded) :
    loaded.store = store ∧ loaded.entryUri = uri ∧ store.get? uri = some loaded.entry := by
  unfold ofStore at h
  split at h
  · cases h
  · rename_i entry hentry
    cases hvalid : store.validate with
    | error fault => simp [hvalid, Except.map] at h
    | ok =>
        simp only [hvalid, Except.map, Except.ok.injEq] at h
        subst h
        exact ⟨rfl, rfl, hentry⟩

/-- A loaded set was filled by registering documents, and maps whatever they refer to,
except for what may be left out. -/
theorem Load.returns_load_covered {m : Type → Type} {ps : Std.Do.PostShape} [Monad m]
    [Std.Do.WPMonad m ps] {world : World m} {retry : Retry} {answers : Answers}
    (hfetch : ∀ uri, Returns (world.fetch retry uri) (answers uri)) (steps : Nat)
    (name : String) :
    Returns (load world retry steps name) fun result => ∀ loaded, result = some (.ok loaded) →
      (∃ documents, loaded.store = Store.ofDocuments documents) ∧
      ∀ document ∈ loaded.store.documents, ∀ uri ∈ targets loaded.store document,
        loaded.store.contains uri ∨ answers.MayLeaveOut uri := by
  refine (returns_load hfetch steps name).mono fun result hresult loaded hloaded => ?_
  obtain ⟨entry, root, last, -, hsteps, hpending, hstore⟩ := hresult loaded hloaded
  have hcovered := (Loading.Covered.start answers entry root).steps hsteps
  rw [(Loaded.of_ofStore hstore).1]
  exact ⟨hcovered.registered, fun document hdocument uri huri =>
    hcovered.contains_or_mayLeaveOut hpending hdocument huri⟩

end SpecForm
