import SpecForm.Proofs.Load.Agreement

/-!
# What is loaded

A loaded set is what can be reached from its entry.  Nothing is missing from it
but what may be left out, and nothing is in it without a reason: the first
document is the entry, and every later one was fetched under a URI that a
document before it refers to.
-/

namespace SpecForm.Load

def ReferredBefore (store : Store) (i : Nat) (uri : String) : Prop :=
  ∃ j earlier, j < i ∧ store.documents[j]? = some earlier ∧ uri ∈ targets store earlier

theorem ReferredBefore.mono {store : Store} {i next : Nat} {uri : String}
    (h : ReferredBefore store i uri) (hle : i ≤ next) : ReferredBefore store next uri := by
  obtain ⟨j, earlier, hj, hearlier, hmem⟩ := h
  exact ⟨j, earlier, Nat.lt_of_lt_of_le hj hle, hearlier, hmem⟩

theorem ReferredBefore.register {store : Store} (horderly : store.Orderly) {i : Nat}
    {uri : String} (h : ReferredBefore store i uri) (fresh : String) (root : Json) :
    ReferredBefore (store.register fresh root).1 i uri := by
  obtain ⟨j, earlier, hj, hearlier, hmem⟩ := h
  refine ⟨j, earlier, hj, ?_, ?_⟩
  · exact (Store.extends_register store fresh root).documents_getElem? hearlier
  · rw [targets_register horderly (List.mem_of_getElem? hearlier)]
    exact hmem

namespace Loading

structure Sourced (answers : Answers) (entry : String) (loading : Loading) : Prop where
  orderly : loading.store.Orderly
  first : ∃ root, loading.store.documents[0]? = some root ∧
    root.document.retrievalUri = entry ∧ answers entry (.ok root.document.root)
  fetched : ∀ {i : Nat} {root : Node}, loading.store.documents[i]? = some root → 0 < i →
    answers root.document.retrievalUri (.ok root.document.root) ∧
      ReferredBefore loading.store i root.document.retrievalUri
  pending : ∀ uri ∈ loading.pending,
    ReferredBefore loading.store loading.store.documents.length uri

variable {answers : Answers} {loading next last : Loading} {entry : String}

namespace Sourced

theorem start {root : Json} (hanswer : answers entry (.ok root)) :
    (Loading.start entry root).Sourced answers entry := by
  have hfresh : Store.empty.get? entry = none := rfl
  have hdocuments : (Store.empty.register entry root).1.documents =
      [Store.empty.nextRoot entry root] := by
    rw [Store.documents_register_of_fresh hfresh]
    rfl
  rw [Loading.start_eq]
  constructor
  · exact Store.Orderly.empty.register entry root
  · exact ⟨Store.empty.nextRoot entry root, by simp [hdocuments], rfl, hanswer⟩
  · intro i document hdocument hi
    obtain ⟨i, rfl⟩ := Nat.exists_eq_succ_of_ne_zero hi.ne'
    simp [hdocuments] at hdocument
  · intro uri huri
    exact ⟨0, Store.empty.nextRoot entry root, by simp [hdocuments], by simp [hdocuments], huri⟩

theorem step (h : loading.Sourced answers entry) (hstep : Step answers loading next) :
    next.Sourced answers entry := by
  cases hstep with
  | skip hpending _ =>
      refine ⟨h.orderly, h.first, h.fetched, fun uri huri => h.pending uri ?_⟩
      rw [hpending]
      exact List.mem_cons_of_mem _ huri
  | leaveOut hpending _ _ =>
      refine ⟨h.orderly, h.first, h.fetched, fun uri huri => h.pending uri ?_⟩
      rw [hpending]
      exact List.mem_cons_of_mem _ huri
  | @register uri rest root hpending hknown hanswer =>
      have hfresh := get?_of_not_isKnown hknown
      have hgrows := Store.documents_register_of_fresh hfresh root
      have hreferred : ReferredBefore loading.store loading.store.documents.length uri :=
        h.pending uri (by simp [hpending])
      constructor
      · exact h.orderly.register uri root
      · obtain ⟨document, hfirst, hentry⟩ := h.first
        exact ⟨document, (Store.extends_register _ uri root).documents_getElem? hfirst,
          hentry⟩
      · intro i document hdocument hi
        rw [hgrows, List.getElem?_append] at hdocument
        split at hdocument
        · obtain ⟨hold, hbefore⟩ := h.fetched hdocument hi
          exact ⟨hold, hbefore.register h.orderly uri root⟩
        · rename_i hlast
          rw [List.getElem?_singleton] at hdocument
          obtain ⟨-, hnew⟩ := Option.ite_none_right_eq_some.mp hdocument
          obtain rfl := Option.some.inj hnew
          exact ⟨hanswer, (hreferred.mono (by omega)).register h.orderly uri root⟩
      · intro other hother
        rw [hgrows, List.length_append, List.length_singleton]
        rcases List.mem_append.mp hother with hown | hrest
        · exact ⟨loading.store.documents.length, _, Nat.lt_succ_self _, by simp [hgrows], hown⟩
        · have hold := h.pending other (hpending ▸ List.mem_cons_of_mem _ hrest)
          exact (hold.mono (Nat.le_succ _)).register h.orderly uri root

theorem steps (h : loading.Sourced answers entry) (hsteps : Steps answers loading last) :
    last.Sourced answers entry := by
  induction hsteps with
  | refl => exact h
  | tail _ hstep ih => exact ih.step hstep

end Sourced

end Loading

/-! ## Loaded sets -/

/-- The set holds what can be reached from `entry`, where documents are found as `found`
says, and no more. -/
structure IsClosure (found : String → Except Fault Json) (entry : String) (loaded : Loaded) :
    Prop where
  entry : loaded.entryUri = entry ∧ loaded.store.documents[0]? = some loaded.entry ∧
    loaded.entry.document.retrievalUri = entry ∧
    found entry = .ok loaded.entry.document.root
  closed : ∀ document ∈ loaded.store.documents, ∀ uri ∈ targets loaded.store document,
    loaded.store.contains uri ∨ ∃ fault, found uri = .error fault ∧ Loading.mayLeaveOut fault
  sourced : ∀ (i : Nat) (root : Node), loaded.store.documents[i]? = some root → 0 < i →
    found root.document.retrievalUri = .ok root.document.root ∧
    ReferredBefore loaded.store i root.document.retrievalUri

theorem isClosure_of_steps {found : String → Except Fault Json} {entry : String} {root : Json}
    {last : Loading} {loaded : Loaded} (hfound : found entry = .ok root)
    (hsteps : Loading.Steps (fun uri outcome => outcome = found uri) (.start entry root) last)
    (hpending : last.pending = []) (hloaded : Loaded.ofStore last.store entry = .ok loaded) :
    IsClosure found entry loaded := by
  have hcovered := (Loading.Covered.start (fun uri outcome => outcome = found uri) entry
    root).steps hsteps
  have hsourced := (Loading.Sourced.start hfound.symm).steps hsteps
  obtain ⟨hstore, huri, hentry⟩ := Loaded.of_ofStore hloaded
  obtain ⟨first, hfirst, hretrieval, hroot⟩ := hsourced.first
  have hsame : loaded.entry = first := by
    have hmapped := hsourced.orderly.found (List.mem_of_getElem? hfirst)
    rw [hretrieval, hentry] at hmapped
    exact Option.some.inj hmapped
  constructor
  · rw [hstore, hsame]
    exact ⟨huri, hfirst, hretrieval, hroot.symm⟩
  · rw [hstore]
    intro document hdocument uri hmem
    rcases hcovered.contains_or_mayLeaveOut hpending hdocument hmem with hmapped | hleft
    · exact .inl hmapped
    · obtain ⟨fault, hfault, hleave⟩ := hleft
      exact .inr ⟨fault, hfault.symm, hleave⟩
  · rw [hstore]
    intro i document hdocument hi
    obtain ⟨hfetched, hreferred⟩ := hsourced.fetched hdocument hi
    exact ⟨hfetched.symm, hreferred⟩

/--
Let fetching find at each URI a document or a fault.  Then whatever is loaded is the
closure of its entry: what a loaded document refers to is mapped, unless finding it
fails in a way that lets it be left out, and every document but the entry was found
under a URI that a document loaded before it refers to.
-/
theorem returns_load_closure {m : Type → Type} {ps : Std.Do.PostShape} [Monad m]
    [Std.Do.WPMonad m ps] {fetch : String → m (Except Fault Json)}
    {found : String → Except Fault Json}
    (hfetch : ∀ uri, Returns (fetch uri) fun outcome => outcome = found uri) (steps : Nat) :
    (∀ uri, Returns (gather fetch steps uri) fun result => ∀ loaded,
      result = some (.ok loaded) → IsClosure found uri loaded) ∧
    (∀ (world : World m) (retry : Retry) (name : String), world.fetch retry = fetch →
      Returns (load world retry steps name) fun result => ∀ loaded,
        result = some (.ok loaded) →
        ∃ uri, absoluteUri world.directory name = .ok uri ∧ IsClosure found uri loaded) := by
  have hgather : ∀ uri, Returns (gather fetch steps uri) fun result => ∀ loaded,
      result = some (.ok loaded) → IsClosure found uri loaded := by
    intro uri
    refine (returns_gather hfetch steps uri).mono fun result hresult loaded hloaded => ?_
    obtain ⟨root, last, hanswer, hsteps, hpending, hstore⟩ := hresult loaded hloaded
    exact isClosure_of_steps hanswer.symm hsteps hpending hstore
  refine ⟨hgather, ?_⟩
  rintro world retry name rfl
  cases huri : absoluteUri world.directory name with
  | error fault =>
      rw [load, huri]
      exact .pure (by simp)
  | ok uri =>
      rw [load_of_absoluteUri huri]
      exact (hgather uri).mono fun result hresult loaded hloaded =>
        ⟨uri, rfl, hresult loaded hloaded⟩

def roundWorld : World Id := .ofTexts "/w"
  [("/w/root.json", "\x7b\"pet\":\x7b\"$ref\":\"pets/pet.json#/0\"\x7d\x7d"),
    ("/w/pets/pet.json", "[\x7b\"$ref\":\"../root.json\"\x7d," ++
      "\x7b\"$ref\":\"owner.json\"\x7d,\x7b\"$ref\":\"urn:tag\"\x7d]")]

theorem returns_load_closure_round :
    ∃ loaded, load roundWorld ⟨1, 0⟩ 8 "root.json" = some (.ok loaded) ∧
      IsClosure (roundWorld.fetch ⟨1, 0⟩) "file:///w/root.json" loaded ∧
      (loaded.store.documents.map fun root => root.document.retrievalUri) =
        ["file:///w/root.json", "file:///w/pets/pet.json"] ∧
      (loaded.store.documents.map (targets loaded.store)) =
        [["file:///w/pets/pet.json"],
          ["file:///w/root.json", "file:///w/pets/owner.json", "urn:tag"]] := by
  have hrun : ((load roundWorld ⟨1, 0⟩ 8 "root.json").bind Except.toOption).map
      (fun loaded => (loaded.entryUri,
        loaded.store.documents.map fun root => root.document.retrievalUri,
        loaded.store.documents.map (targets loaded.store))) =
      some ("file:///w/root.json", ["file:///w/root.json", "file:///w/pets/pet.json"],
        [["file:///w/pets/pet.json"],
          ["file:///w/root.json", "file:///w/pets/owner.json", "urn:tag"]]) := by
    decide +kernel
  obtain ⟨loaded, hsome, hvalues⟩ := Option.map_eq_some_iff.mp hrun
  obtain ⟨hentry, hdocuments, htargets⟩ : loaded.entryUri = _ ∧ _ = _ ∧ _ = _ := by
    simpa only [Prod.mk.injEq] using hvalues
  have hload : load roundWorld ⟨1, 0⟩ 8 "root.json" = some (.ok loaded) := by
    obtain ⟨outcome, houtcome, hok⟩ := Option.bind_eq_some_iff.mp hsome
    cases outcome with
    | error fault => cases hok
    | ok other => rw [houtcome, Option.some.inj hok]
  obtain ⟨uri, -, hclosure⟩ := returns_id.mp ((returns_load_closure
    (fun uri => returns_id.mpr (rfl : _ = roundWorld.fetch ⟨1, 0⟩ uri)) 8).2 roundWorld ⟨1, 0⟩
    "root.json" rfl) _ hload
  rw [← hclosure.entry.1, hentry] at hclosure
  exact ⟨loaded, hload, hclosure, hdocuments, htargets⟩

end SpecForm.Load
