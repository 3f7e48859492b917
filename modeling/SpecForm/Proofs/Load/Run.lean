import Mathlib
import SpecForm.Load.Closure
import SpecForm.Proofs.Load.Targets
import SpecForm.Proofs.Store.Indexing

/-!
# Runs of the loader

What comes of fetching is left open: all that is known of an outcome is that it
is among the answers that a URI may have.  A run that ends well is a sequence of
steps to a state in which nothing is pending.  Whatever a loaded document refers
to is then mapped, unless fetching it failed in a way that lets it be left out.
-/

namespace SpecForm

open Std.Do

/-! ## What programs return -/

section

variable {m : Type → Type} {ps : PostShape} {α β : Type}

/-- Whatever a program returns has a property. -/
def Returns [WP m ps] (program : m α) (property : α → Prop) : Prop :=
  ⦃⌜True⌝⦄ program ⦃⇓? result => ⌜property result⌝⦄

variable [Monad m] [WPMonad m ps] {program : m α} {property other : α → Prop}

theorem Returns.pure {result : α} (h : property result) :
    Returns (Pure.pure result : m α) property :=
  Triple.pure result (SPred.pure_intro h)

theorem returns_id {program : Id α} {property : α → Prop} :
    Returns program property ↔ property program.run :=
  ⟨fun h => h trivial, fun h _ => h⟩

theorem Returns.mono (h : Returns program property) (hmono : ∀ result, property result →
    other result) : Returns program other :=
  Triple.entails_wp_of_post h ((PostCond.entails_mayThrow _ _).mpr fun result =>
    SPred.pure_mono (hmono result))

theorem Returns.bind {next : α → m β} {later : β → Prop} (h : Returns program property)
    (hnext : ∀ result, property result → Returns (next result) later) :
    Returns (program >>= next) later := by
  refine Triple.bind program next (Q := fun result => ⌜property result⌝)
    (R := ⇓? result => ⌜later result⌝) h fun result => ?_
  apply SPred.pure_elim'
  intro hresult
  exact SPred.true_intro.trans (hnext result hresult)

end

namespace Load

abbrev Answers := String → Except Fault Json → Prop

def Answers.MayLeaveOut (answers : Answers) (uri : String) : Prop :=
  ∃ fault, answers uri (.error fault) ∧ Loading.mayLeaveOut fault

namespace Loading

variable {answers : Answers} {loading next last : Loading} {uri : String} {rest : List String}

/-! ## Steps -/

/-- The next pending URI is known, or registered, or left out. -/
inductive Step (answers : Answers) (loading : Loading) : Loading → Prop where
  | skip {uri : String} {rest : List String} :
      loading.pending = uri :: rest → loading.isKnown uri →
      Step answers loading ⟨loading.store, loading.tried, rest⟩
  | register {uri : String} {rest : List String} {root : Json} :
      loading.pending = uri :: rest → ¬loading.isKnown uri → answers uri (.ok root) →
      Step answers loading ⟨(loading.store.register uri root).1, uri :: loading.tried,
        targets (loading.store.register uri root).1 (loading.store.nextRoot uri root) ++ rest⟩
  | leaveOut {uri : String} {rest : List String} :
      loading.pending = uri :: rest → ¬loading.isKnown uri → answers.MayLeaveOut uri →
      Step answers loading ⟨loading.store, uri :: loading.tried, rest⟩

abbrev Steps (answers : Answers) : Loading → Loading → Prop :=
  Relation.ReflTransGen (Step answers)

theorem get?_of_not_isKnown (h : ¬loading.isKnown uri) : loading.store.get? uri = none := by
  have hcontains : ¬loading.store.contains uri := fun hc => h (by simp [isKnown, hc])
  simpa [Store.contains] using hcontains

theorem step_skip (hpending : loading.pending = uri :: rest) (hknown : loading.isKnown uri) :
    Step answers loading loading.skip := by
  simpa [Loading.skip, hpending] using Step.skip hpending hknown

theorem step_absorb {outcome : Except Fault Json} (hpending : loading.pending = uri :: rest)
    (hknown : ¬loading.isKnown uri) (hanswer : answers uri outcome)
    (habsorb : loading.absorb uri outcome = .ok next) : Step answers loading next := by
  unfold absorb at habsorb
  rw [hpending] at habsorb
  cases outcome with
  | ok root =>
      have hstep := Step.register hpending hknown hanswer
      dsimp only at habsorb
      rw [Store.register_of_fresh (get?_of_not_isKnown hknown)] at habsorb hstep
      rw [← Except.ok.inj habsorb]
      exact hstep
  | error fault =>
      dsimp only at habsorb
      split at habsorb
      · rename_i hleave
        rw [← Except.ok.inj habsorb]
        exact .leaveOut hpending hknown ⟨fault, hanswer, hleave⟩
      · cases habsorb

section

variable {m : Type → Type} {ps : PostShape} [Monad m] [WPMonad m ps]

theorem returns_run {fetch : String → m (Except Fault Json)}
    (hfetch : ∀ uri, Returns (fetch uri) (answers uri)) (steps : Nat) (loading : Loading) :
    Returns (run fetch steps loading) fun result => ∀ store, result = some (.ok store) →
      ∃ last, Steps answers loading last ∧ last.pending = [] ∧ last.store = store := by
  induction steps generalizing loading with
  | zero =>
      rw [run]
      exact .pure (by simp)
  | succ steps ih =>
      have hrest : ∀ next, Step answers loading next →
          Returns (run fetch steps next) fun result => ∀ store, result = some (.ok store) →
            ∃ last, Steps answers loading last ∧ last.pending = [] ∧ last.store = store := by
        intro next hstep
        refine (ih next).mono fun result hresult store hstore => ?_
        obtain ⟨last, hsteps, hlast⟩ := hresult store hstore
        exact ⟨last, .head hstep hsteps, hlast⟩
      rw [run]
      split
      · rename_i hpending
        refine .pure fun store hstore => ?_
        cases hstore
        exact ⟨loading, .refl, hpending, rfl⟩
      · rename_i uri rest hpending
        split
        · rename_i hknown
          exact hrest _ (step_skip hpending hknown)
        · rename_i hknown
          refine (hfetch uri).bind fun outcome hanswer => ?_
          cases habsorb : loading.absorb uri outcome with
          | ok next => exact hrest next (step_absorb hpending hknown hanswer habsorb)
          | error fault => exact .pure (by simp)

end

end Loading

/-! ## Loading -/

section

variable {m : Type → Type} [Monad m]

/-- Loads what is at a URI and all that it refers to, in whatever way documents are
fetched. -/
def gather (fetch : String → m (Except Fault Json)) (steps : Nat) (uri : String) :
    m (Option (Except Fault Loaded)) := do
  match ← fetch uri with
  | .error fault => return some (.error fault)
  | .ok root =>
      let outcome ← Loading.run fetch steps (Loading.start uri root)
      return outcome.map fun outcome => outcome.bind (Loaded.ofStore · uri)

theorem load_of_absoluteUri {world : World m} {name uri : String}
    (h : absoluteUri world.directory name = .ok uri) (retry : Retry) (steps : Nat) :
    load world retry steps name = gather (world.fetch retry) steps uri := by
  rw [load, h]
  rfl

variable {ps : PostShape} [WPMonad m ps] {answers : Answers}

theorem returns_gather {fetch : String → m (Except Fault Json)}
    (hfetch : ∀ uri, Returns (fetch uri) (answers uri)) (steps : Nat) (uri : String) :
    Returns (gather fetch steps uri) fun result => ∀ loaded, result = some (.ok loaded) →
      ∃ root last, answers uri (.ok root) ∧
        Loading.Steps answers (Loading.start uri root) last ∧ last.pending = [] ∧
        Loaded.ofStore last.store uri = .ok loaded := by
  unfold gather
  refine (hfetch uri).bind fun outcome hanswer => ?_
  cases outcome with
  | error fault => exact .pure (by simp)
  | ok root =>
      refine (Loading.returns_run hfetch steps _).bind fun result hresult => .pure ?_
      intro loaded hloaded
      obtain ⟨outcome, rfl, houtcome⟩ := Option.map_eq_some_iff.mp hloaded
      cases outcome with
      | error fault => cases houtcome
      | ok store =>
          obtain ⟨last, hsteps, hlast, rfl⟩ := hresult store rfl
          exact ⟨root, last, hanswer, hsteps, hlast, houtcome⟩

theorem returns_load {world : World m} {retry : Retry}
    (hfetch : ∀ uri, Returns (world.fetch retry uri) (answers uri)) (steps : Nat)
    (name : String) :
    Returns (load world retry steps name) fun result => ∀ loaded, result = some (.ok loaded) →
      ∃ uri root last, answers uri (.ok root) ∧
        Loading.Steps answers (Loading.start uri root) last ∧ last.pending = [] ∧
        Loaded.ofStore last.store uri = .ok loaded := by
  cases huri : absoluteUri world.directory name with
  | error fault =>
      rw [load, huri]
      exact .pure (by simp)
  | ok uri =>
      rw [load_of_absoluteUri huri]
      exact (returns_gather hfetch steps uri).mono fun _ hresult loaded hloaded =>
        ⟨uri, hresult loaded hloaded⟩

end

end Load

end SpecForm
