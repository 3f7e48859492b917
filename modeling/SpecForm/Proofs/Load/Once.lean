import SpecForm.Proofs.Load.Reachable

/-!
# How often a document is asked for

No URI is asked for twice.  What a document refers to is sought without a
fragment, so two URIs that were asked for name one document only if one of them
is the entry and the entry was named with a fragment.  A document that refers to
such an entry loads it once more.
-/

namespace SpecForm

/-! ## Paths have no fragment -/

theorem Text.Percent.notMem_encode {escaped : Char → Bool} {c : Char} (hc : escaped c)
    (hmark : c ≠ '%') (hdigit : ∀ n < 16, hexDigit n ≠ c) (text : List Char) :
    c ∉ encode escaped text := by
  intro hmem
  obtain ⟨other, -, hother⟩ := List.mem_flatMap.mp hmem
  split at hother
  · obtain ⟨byte, -, hbyte⟩ := List.mem_flatMap.mp hother
    have hsize : byte.toNat < 256 := byte.toNat_lt
    simp only [encodeByte, List.mem_cons, List.not_mem_nil, or_false] at hbyte
    rcases hbyte with rfl | rfl | rfl
    · exact hmark rfl
    · exact hdigit _ (by omega) rfl
    · exact hdigit _ (by omega) rfl
  · rename_i hplain
    rw [List.mem_singleton.mp hother] at hc
    exact hplain hc

theorem Uri.hash_notMem_ofPath (path : List Char) : '#' ∉ (ofPath path).toList := by
  unfold ofPath
  split
  · decide
  · rename_i segments _
    rw [String.toList_append, List.mem_append, not_or]
    refine ⟨by decide, fun hmem => ?_⟩
    rw [String.toList_ofList] at hmem
    obtain ⟨segment, -, hsegment⟩ := List.mem_flatMap.mp hmem
    rcases List.mem_cons.mp hsegment with hslash | hencoded
    · exact absurd hslash (by decide)
    · exact Text.Percent.notMem_encode (by decide) (by decide) (by decide) segment hencoded

namespace Load

open Reference

theorem hash_notMem_absoluteUri {directory name uri : String}
    (huri : absoluteUri directory name = .ok uri) (hpath : ¬Uri.looksLikeUri name) :
    '#' ∉ uri.toList := by
  rw [absoluteUri, Uri.absolute, if_neg hpath] at huri
  cases hname : name.toList with
  | nil => simp [hname] at huri
  | cons first rest =>
      have hexists : ∃ path, uri = Uri.ofPath path := by
        by_cases hfirst : first = '/'
        · subst hfirst
          exact ⟨'/' :: rest, by simpa [hname, eq_comm] using huri⟩
        · exact ⟨directory.toList ++ '/' :: first :: rest,
            by simpa [hname, hfirst, eq_comm] using huri⟩
      obtain ⟨path, rfl⟩ := hexists
      exact Uri.hash_notMem_ofPath path

/-! ## Targets have no fragment -/

theorem hash_notMem_locatedBy {base uri : String} {value : Json}
    (h : uri ∈ locatedBy base value) : '#' ∉ uri.toList := by
  obtain ⟨keyword, -, hkeyword⟩ := List.mem_filterMap.mp h
  obtain ⟨text, -, hlocated⟩ := Option.bind_eq_some_iff.mp hkeyword
  obtain ⟨-, hresolved⟩ := Option.ite_none_left_eq_some.mp hlocated
  obtain ⟨target, -, rfl⟩ := Option.map_eq_some_iff.mp hresolved
  exact hash_notMem_withoutFragment target

variable {store : Store} {fallback : String}

mutual

theorem hash_notMem_locatedIn (value : Json) (node : Node) :
    ∀ uri ∈ locatedIn store fallback node value, '#' ∉ uri.toList := by
  match value with
  | .object members =>
      rw [locatedIn_of_object]
      intro uri huri
      rcases List.mem_append.mp huri with hown | hmembers
      · exact hash_notMem_locatedBy hown
      · exact hash_notMem_locatedInMembers members node uri hmembers
  | .array items =>
      rw [locatedIn]
      exact hash_notMem_locatedInItems items 0 node
  | .null | .bool _ | .int _ | .float _ | .string _ => simp [locatedIn]

theorem hash_notMem_locatedInMembers (members : List (String × Json)) (node : Node) :
    ∀ uri ∈ locatedInMembers store fallback node members, '#' ∉ uri.toList := by
  match members with
  | [] => simp [locatedInMembers]
  | (name, value) :: rest =>
      rw [locatedInMembers]
      intro uri huri
      rcases List.mem_append.mp huri with hfirst | hrest
      · exact hash_notMem_locatedIn value (node.step name) uri hfirst
      · exact hash_notMem_locatedInMembers rest node uri hrest

theorem hash_notMem_locatedInItems (items : List Json) (start : Nat) (node : Node) :
    ∀ uri ∈ locatedInItems store fallback node start items, '#' ∉ uri.toList := by
  match items with
  | [] => simp [locatedInItems]
  | value :: rest =>
      rw [locatedInItems]
      intro uri huri
      rcases List.mem_append.mp huri with hfirst | hrest
      · exact hash_notMem_locatedIn value (node.step (toString start)) uri hfirst
      · exact hash_notMem_locatedInItems rest (start + 1) node uri hrest

end

theorem hash_notMem_targets {document : Node} {uri : String} (h : uri ∈ targets store document) :
    '#' ∉ uri.toList :=
  hash_notMem_locatedIn _ _ uri (List.mem_eraseDups.mp h)

namespace Loading

/-! ## What a run asks for -/

/-- What has been asked for, the entry first, and what was loaded of it. -/
structure AskedOnce (entry : String) (loading : Loading) : Prop where
  tried : ∃ later, loading.tried = later ++ [entry] ∧ ∀ uri ∈ later, '#' ∉ uri.toList
  nodup : loading.tried.Nodup
  pending : ∀ uri ∈ loading.pending, '#' ∉ uri.toList
  loaded : ∃ later, (loading.store.documents.map fun root => root.document.retrievalUri) =
    entry :: later ∧ (entry :: later).Sublist loading.tried.reverse

variable {answers : Answers} {loading next last : Loading} {entry : String}

namespace AskedOnce

theorem start (entry : String) (root : Json) : (Loading.start entry root).AskedOnce entry := by
  have hfresh : Store.empty.get? entry = none := rfl
  rw [Loading.start_eq]
  constructor
  · exact ⟨[], rfl, by simp⟩
  · exact List.nodup_singleton entry
  · exact fun uri huri => hash_notMem_targets huri
  · refine ⟨[], ?_, List.Sublist.refl _⟩
    rw [Store.documents_register_of_fresh hfresh]
    rfl

theorem ask {uri : String} {rest : List String} (h : loading.AskedOnce entry)
    (hpending : loading.pending = uri :: rest) (hknown : ¬loading.isKnown uri) :
    (Loading.mk loading.store (uri :: loading.tried) rest).AskedOnce entry := by
  obtain ⟨later, htried, hlater⟩ := h.tried
  obtain ⟨loaded, hdocuments, hloaded⟩ := h.loaded
  have hfree : ∀ other ∈ uri :: rest, '#' ∉ other.toList := hpending ▸ h.pending
  constructor
  · refine ⟨uri :: later, congrArg (uri :: ·) htried, fun other hother => ?_⟩
    rcases List.mem_cons.mp hother with rfl | hold
    · exact hfree other List.mem_cons_self
    · exact hlater other hold
  · refine List.nodup_cons.mpr ⟨fun hmem => hknown ?_, h.nodup⟩
    simp [isKnown, hmem]
  · exact fun other hother => hfree other (List.mem_cons_of_mem _ hother)
  · refine ⟨loaded, hdocuments, ?_⟩
    rw [List.reverse_cons]
    exact hloaded.trans (List.sublist_append_left _ _)

theorem step (h : loading.AskedOnce entry) (hstep : Step answers loading next) :
    next.AskedOnce entry := by
  cases hstep with
  | skip hpending _ =>
      refine ⟨h.tried, h.nodup, fun uri huri => h.pending uri ?_, h.loaded⟩
      rw [hpending]
      exact List.mem_cons_of_mem _ huri
  | leaveOut hpending hknown _ => exact h.ask hpending hknown
  | @register uri rest root hpending hknown _ =>
      have hfresh := get?_of_not_isKnown hknown
      have hasked := h.ask hpending hknown
      obtain ⟨loaded, hdocuments, hloaded⟩ := h.loaded
      refine ⟨hasked.tried, hasked.nodup, fun other hother => ?_, loaded ++ [uri], ?_, ?_⟩
      · rcases List.mem_append.mp hother with hown | hrest
        · exact hash_notMem_targets hown
        · exact hasked.pending other hrest
      · rw [Store.documents_register_of_fresh hfresh, List.map_append, hdocuments]
        rfl
      · rw [List.reverse_cons, ← List.cons_append]
        exact hloaded.append (List.Sublist.refl _)

theorem steps (h : loading.AskedOnce entry) (hsteps : Steps answers loading last) :
    last.AskedOnce entry := by
  induction hsteps with
  | refl => exact h
  | tail _ hstep ih => exact ih.step hstep

end AskedOnce

end Loading

/-! ## Fetching that keeps account -/

section

variable {m : Type → Type} [Monad m]

def noting (fetch : String → m (Except Fault Json)) (uri : String) :
    StateT (List String) m (Except Fault Json) := fun asked => do
  return (← fetch uri, asked ++ [uri])

/-- Loading, and the URIs that were asked for in the order of asking. -/
def loadNoting (world : World m) (retry : Retry) (steps : Nat) (name : String) :
    m (Option (Except Fault Loaded) × List String) :=
  match absoluteUri world.directory name with
  | .error fault => return (some (.error fault), [])
  | .ok uri => (gather (noting (world.fetch retry)) steps uri).run []

variable [LawfulMonad m] (fetch : String → m (Except Fault Json))

theorem run_noting_bind {α : Type} (uri : String) (asked : List String)
    (next : Except Fault Json → StateT (List String) m α) :
    (noting fetch uri >>= next).run asked =
      fetch uri >>= fun outcome => (next outcome).run (asked ++ [uri]) := by
  simp [noting, StateT.run, bind, StateT.bind]

theorem Loading.fst_run_noting (steps : Nat) (loading : Loading) (asked : List String) :
    Prod.fst <$> (Loading.run (noting fetch) steps loading).run asked =
      Loading.run fetch steps loading := by
  induction steps generalizing loading asked with
  | zero => simp [Loading.run]
  | succ steps ih =>
      rw [Loading.run, Loading.run]
      split
      · simp
      · split
        · exact ih _ _
        · rename_i uri rest _ _
          rw [run_noting_bind, map_bind]
          congr 1
          funext outcome
          cases loading.absorb uri outcome with
          | ok next => exact ih _ _
          | error fault => simp

theorem fst_run_gather_noting (steps : Nat) (uri : String) :
    Prod.fst <$> (gather (noting fetch) steps uri).run [] = gather fetch steps uri := by
  unfold gather
  rw [run_noting_bind, map_bind]
  congr 1
  funext outcome
  cases outcome with
  | error fault => simp
  | ok root =>
      simp only [StateT.run_bind, StateT.run_pure, map_bind, map_pure]
      have hrun := Loading.fst_run_noting fetch steps (Loading.start uri root) ([] ++ [uri])
      rw [← hrun, bind_map_left]

theorem fst_loadNoting (world : World m) (retry : Retry) (steps : Nat) (name : String) :
    Prod.fst <$> loadNoting world retry steps name = load world retry steps name := by
  cases huri : absoluteUri world.directory name with
  | error fault => simp [loadNoting, load, huri]
  | ok uri =>
      rw [load_of_absoluteUri huri, loadNoting, huri]
      exact fst_run_gather_noting (world.fetch retry) steps uri

end

section

variable {m : Type → Type} {ps : Std.Do.PostShape} [Monad m] [Std.Do.WPMonad m ps]
  {fetch : String → m (Except Fault Json)} {answers : Answers}

theorem Loading.tried_absorb {loading next : Loading} {uri : String}
    {outcome : Except Fault Json} (h : loading.absorb uri outcome = .ok next) :
    next.tried = uri :: loading.tried := by
  cases outcome with
  | ok root => rw [← Except.ok.inj h]
  | error fault =>
      unfold absorb at h
      dsimp only at h
      split at h
      · rw [← Except.ok.inj h]
      · cases h

/-- If a run has come to its end, its steps led to the store, and what was tried is what was
asked for. -/
def Loading.EndsAs (answers : Answers) (loading : Loading)
    (ended : Option (Except Fault Store) × List String) : Prop :=
  ∀ store, ended.1 = some (.ok store) →
    ∃ last, Steps answers loading last ∧ last.store = store ∧ ended.2 = last.tried.reverse

theorem Loading.returns_run_noting (hfetch : ∀ uri, Returns (fetch uri) (answers uri))
    (steps : Nat) (loading : Loading) :
    Returns ((Loading.run (noting fetch) steps loading).run loading.tried.reverse)
      (EndsAs answers loading) := by
  induction steps generalizing loading with
  | zero =>
      rw [Loading.run]
      exact .pure (by simp [EndsAs])
  | succ steps ih =>
      have hrest : ∀ next, Step answers loading next →
          Returns ((Loading.run (noting fetch) steps next).run next.tried.reverse)
            (EndsAs answers loading) := by
        intro next hstep
        refine (ih next).mono fun ended hended store hstore => ?_
        obtain ⟨last, hsteps, hlast⟩ := hended store hstore
        exact ⟨last, .head hstep hsteps, hlast⟩
      rw [Loading.run]
      split
      · refine .pure fun store hstore => ?_
        cases hstore
        exact ⟨loading, .refl, rfl, rfl⟩
      · rename_i uri rest hpending
        split
        · rename_i hknown
          exact hrest _ (step_skip hpending hknown)
        · rename_i hknown
          rw [run_noting_bind]
          refine (hfetch uri).bind fun outcome hanswer => ?_
          cases habsorb : loading.absorb uri outcome with
          | ok next =>
              rw [← List.reverse_cons, ← tried_absorb habsorb]
              exact hrest next (step_absorb hpending hknown hanswer habsorb)
          | error fault => exact .pure (by simp [EndsAs])

theorem returns_loadNoting {world : World m} {retry : Retry}
    (hfetch : ∀ uri, Returns (world.fetch retry uri) (answers uri)) (steps : Nat)
    (name : String) :
    Returns (loadNoting world retry steps name) fun (result, asked) => ∀ loaded,
      result = some (.ok loaded) → absoluteUri world.directory name = .ok loaded.entryUri ∧
        ∃ last : Loading, last.AskedOnce loaded.entryUri ∧ last.store = loaded.store ∧
          asked = last.tried.reverse := by
  unfold loadNoting
  cases huri : absoluteUri world.directory name with
  | error fault => exact .pure (by simp)
  | ok uri =>
      dsimp only
      unfold gather
      rw [run_noting_bind]
      refine (hfetch uri).bind fun outcome _ => ?_
      cases outcome with
      | error fault => exact .pure (by simp)
      | ok root =>
          have hrun := Loading.returns_run_noting hfetch steps (Loading.start uri root)
          rw [(rfl : (Loading.start uri root).tried.reverse = [] ++ [uri])] at hrun
          rw [StateT.run_bind]
          refine hrun.bind fun (result, asked) hresult => .pure ?_
          intro loaded hloaded
          obtain ⟨outcome, rfl, houtcome⟩ := Option.map_eq_some_iff.mp hloaded
          cases outcome with
          | error fault => cases houtcome
          | ok store =>
              obtain ⟨last, hsteps, rfl, rfl⟩ := hresult store rfl
              obtain ⟨hstore, hentry, -⟩ := Loaded.of_ofStore houtcome
              rw [hstore, hentry]
              exact ⟨rfl, last, (Loading.AskedOnce.start uri root).steps hsteps, rfl, rfl⟩

end

theorem nodup_map_withoutFragment_iff {entry : String} {later : List String}
    (hnodup : (entry :: later).Nodup) (hlater : ∀ uri ∈ later, '#' ∉ uri.toList) :
    ((entry :: later).map withoutFragment).Nodup ↔
      '#' ∉ entry.toList ∨ withoutFragment entry ∉ entry :: later := by
  have hsame : later.map withoutFragment = later := by
    rw [List.map_congr_left fun uri huri => withoutFragment_eq_self (hlater uri huri), List.map_id']
  obtain ⟨hentry, hrest⟩ := List.nodup_cons.mp hnodup
  rw [List.map_cons, hsame, List.nodup_cons, and_iff_left hrest]
  by_cases hfree : '#' ∉ entry.toList
  · simp [hfree, withoutFragment_eq_self hfree, hentry]
  · have hne : withoutFragment entry ≠ entry := fun heq =>
      hfree (heq ▸ hash_notMem_withoutFragment entry)
    simp [hfree, hne]

/--
However fetching goes, keeping account of it changes nothing, and no URI is asked for
twice.  The entry is asked for first, and the documents of a loaded set are among what was
asked for, in that order.  No two URIs that were asked for, and no two documents, are alike
up to fragments exactly if the entry was named without a fragment, as every path is, or was
not asked for, or loaded, without it as well.
-/
theorem returns_loadNoting_once {m : Type → Type} {ps : Std.Do.PostShape} [Monad m]
    [Std.Do.WPMonad m ps] {world : World m} {retry : Retry}
    (hfetch : ∀ uri, Returns (world.fetch retry uri) fun _ => True) (steps : Nat)
    (name : String) :
    Prod.fst <$> loadNoting world retry steps name = load world retry steps name ∧
    Returns (loadNoting world retry steps name) fun (result, asked) => ∀ loaded,
      result = some (.ok loaded) →
      let entry := loaded.entryUri
      let uris := loaded.store.documents.map fun root => root.document.retrievalUri
      (asked.Nodup ∧ asked.head? = some entry ∧ uris.head? = some entry ∧
        uris.Sublist asked) ∧
      ((asked.map withoutFragment).Nodup ↔
        '#' ∉ entry.toList ∨ withoutFragment entry ∉ asked) ∧
      ((uris.map withoutFragment).Nodup ↔
        '#' ∉ entry.toList ∨ withoutFragment entry ∉ uris) ∧
      (¬Uri.looksLikeUri name → '#' ∉ entry.toList) := by
  refine ⟨fst_loadNoting world retry steps name, ?_⟩
  refine (returns_loadNoting hfetch steps name).mono fun (result, asked) hresult loaded hloaded => ?_
  obtain ⟨hentry, last, honce, hstore, hasked⟩ := hresult loaded hloaded
  obtain ⟨later, htried, hlater⟩ := honce.tried
  obtain ⟨loadedLater, huris, hsublist⟩ := honce.loaded
  have hnodup : asked.Nodup := hasked ▸ List.nodup_reverse.mpr honce.nodup
  have hcons : asked = loaded.entryUri :: later.reverse := by
    rw [hasked, htried, List.reverse_append]
    rfl
  rw [← hasked] at hsublist
  have hfree : ∀ uri ∈ loadedLater, '#' ∉ uri.toList := by
    intro uri huri
    rw [hcons] at hsublist
    exact hlater uri (List.mem_reverse.mp ((List.cons_sublist_cons.mp hsublist).subset huri))
  dsimp only
  rw [← hstore, huris]
  refine ⟨⟨hnodup, by rw [hcons]; rfl, rfl, hsublist⟩, ?_, ?_, hash_notMem_absoluteUri hentry⟩
  · rw [hcons] at hnodup ⊢
    exact nodup_map_withoutFragment_iff hnodup fun uri huri =>
      hlater uri (List.mem_reverse.mp huri)
  · exact nodup_map_withoutFragment_iff (hsublist.nodup hnodup) hfree

theorem exists_loaded_of_view {β : Type} {run : Option (Except Fault Loaded) × List String}
    {asked : List String} (view : Loaded → β) {value : β}
    (h : ((run.1.bind Except.toOption).map view, run.2) = (some value, asked)) :
    ∃ loaded, run = (some (.ok loaded), asked) ∧ view loaded = value := by
  obtain ⟨result, other⟩ := run
  obtain ⟨hresult, rfl⟩ := Prod.mk.inj h
  obtain ⟨loaded, hloaded, hview⟩ := Option.map_eq_some_iff.mp hresult
  obtain ⟨outcome, rfl, hok⟩ := Option.bind_eq_some_iff.mp hloaded
  cases outcome with
  | error fault => cases hok
  | ok other => exact ⟨loaded, by rw [Option.some.inj hok], hview⟩

theorem of_returns_id {α : Type} {program : Id α} {property : α → Prop} {value : α}
    (h : Returns program property) (hvalue : program = value) : property value := by
  subst hvalue
  exact returns_id.mp h

theorem returns_loadNoting_once_round :
    ∃ loaded asked, loadNoting roundWorld ⟨1, 0⟩ 8 "root.json" = (some (.ok loaded), asked) ∧
      asked = ["file:///w/root.json", "file:///w/pets/pet.json", "file:///w/pets/owner.json",
        "urn:tag"] ∧
      (asked.map withoutFragment).Nodup ∧
      ((loaded.store.documents.map fun root => root.document.retrievalUri).map
        withoutFragment).Nodup := by
  have hvalues : (((loadNoting roundWorld ⟨1, 0⟩ 8 "root.json").1.bind Except.toOption).map
      fun _ => (), (loadNoting roundWorld ⟨1, 0⟩ 8 "root.json").2) =
      (some (), ["file:///w/root.json", "file:///w/pets/pet.json",
        "file:///w/pets/owner.json", "urn:tag"]) := by
    decide +kernel
  obtain ⟨loaded, hrun, -⟩ := exists_loaded_of_view _ hvalues
  have hfetch : ∀ uri, Returns (roundWorld.fetch ⟨1, 0⟩ uri) fun _ => True :=
    fun _ => returns_id.mpr trivial
  have honce := of_returns_id (returns_loadNoting_once hfetch 8 "root.json").2 hrun
  obtain ⟨-, hasked, huris, hpath⟩ := honce loaded rfl
  have hfree := hpath (by decide)
  exact ⟨loaded, _, hrun, rfl, hasked.mpr (.inl hfree), huris.mpr (.inl hfree)⟩

/-- An entry that is named with a fragment is asked for, and loaded, once more by a document
that refers to it. -/
theorem exists_loaded_twice :
    ∃ loaded asked,
      loadNoting roundWorld ⟨1, 0⟩ 8 "file:///w/root.json#top" = (some (.ok loaded), asked) ∧
      load roundWorld ⟨1, 0⟩ 8 "file:///w/root.json#top" = some (.ok loaded) ∧
      (loaded.store.documents.map fun root => root.document.retrievalUri) =
        ["file:///w/root.json#top", "file:///w/pets/pet.json", "file:///w/root.json"] ∧
      ¬((loaded.store.documents.map fun root => root.document.retrievalUri).map
        withoutFragment).Nodup ∧
      ¬(asked.map withoutFragment).Nodup := by
  have hvalues : (((loadNoting roundWorld ⟨1, 0⟩ 8 "file:///w/root.json#top").1.bind
      Except.toOption).map fun loaded =>
        loaded.store.documents.map fun root => root.document.retrievalUri,
      (loadNoting roundWorld ⟨1, 0⟩ 8 "file:///w/root.json#top").2) =
      (some ["file:///w/root.json#top", "file:///w/pets/pet.json", "file:///w/root.json"],
        ["file:///w/root.json#top", "file:///w/pets/pet.json", "file:///w/root.json",
          "file:///w/pets/owner.json", "urn:tag"]) := by
    decide +kernel
  obtain ⟨loaded, hrun, huris⟩ := exists_loaded_of_view _ hvalues
  have hload := fst_loadNoting roundWorld ⟨1, 0⟩ 8 "file:///w/root.json#top"
  refine ⟨loaded, _, hrun, ?_, huris, ?_, by decide +kernel⟩
  · rw [← hload, hrun]
    rfl
  · rw [huris]
    decide +kernel

end Load

end SpecForm
