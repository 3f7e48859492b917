import Mathlib.Algebra.Order.Group.Nat
import Mathlib.Data.List.Basic
import SpecForm.Load.Retry

/-!
# Attempts and pauses

A request is tried until an outcome settles it, or until no more attempts are allowed; between two
attempts there is a pause, twice the one before unless that is longer than 64 bits can hold.  The
attempts are counted in 32 bits, and the count always fits.
-/

namespace SpecForm.Load.Retry

variable {α : Type}

/-! ## What a run should come to -/

def settles : Except Fault α → Bool
  | .ok _ => true
  | .error fault => !fault.isTransient

/-- The number of the last attempt: the first that settles, or the last that is allowed. -/
def last (retry : Retry) (outcomes : Nat → Except Fault α) : Nat :=
  ((List.range' 1 retry.attempts).find? fun i => settles (outcomes i)).getD retry.attempts

def doubled (retry : Retry) (attempt : Nat) : Nat :=
  min (retry.firstPause * 2 ^ (attempt - 1)) (2 ^ 64 - 1)

inductive Event where
  | attempt
  | pause (time : Nat)
  deriving DecidableEq, Repr

def eventsFrom (retry : Retry) (first last : Nat) : List Event :=
  .attempt :: (List.range' first (last - first)).flatMap fun i => [.pause (retry.doubled i), .attempt]

/-! ## Recording a run -/

/-- An attempt whose outcome is told by its number, in a record of all that has happened. -/
def recordAttempt (outcomes : Nat → Except Fault α) : StateM (List Event) (Except Fault α) :=
  fun events => (outcomes (events.count .attempt + 1), events ++ [.attempt])

def recordPause (time : Nat) : StateM (List Event) Unit :=
  fun events => ((), events ++ [.pause time])

theorem run_recordAttempt_bind {β : Type} (outcomes : Nat → Except Fault α)
    (next : Except Fault α → StateM (List Event) β) (events : List Event) :
    (recordAttempt outcomes >>= next).run events =
      (next (outcomes (events.count .attempt + 1))).run (events ++ [.attempt]) := rfl

theorem run_recordPause_bind {β : Type} (time : Nat) (next : Unit → StateM (List Event) β)
    (events : List Event) :
    (recordPause time >>= next).run events = (next ()).run (events ++ [.pause time]) := rfl

theorem pauseAfter_eq_doubled (retry : Retry) (attempt : Nat) :
    retry.pauseAfter attempt = retry.doubled attempt := by
  have hlongest : longestPause = 2 ^ 64 - 1 := rfl
  simp only [pauseAfter, doubled, hlongest]
  split
  · rfl
  · -- From 64 doublings on, all pauses but none at all are the longest.
    rename_i hmany
    cases retry.firstPause with
    | zero => simp
    | succ time =>
        have hpower : 2 ^ 64 ≤ 2 ^ (attempt - 1) := Nat.pow_le_pow_right (by omega) (by omega)
        have hleft : 2 ^ 64 - 1 ≤ (time + 1) * (2 ^ 64 - 1) := Nat.le_mul_of_pos_left _ (by omega)
        have hright : 2 ^ (attempt - 1) ≤ (time + 1) * 2 ^ (attempt - 1) :=
          Nat.le_mul_of_pos_left _ (by omega)
        rw [min_eq_right hleft, min_eq_right (by omega)]

theorem doubled_le_doubled (retry : Retry) {first second : Nat} (h : first ≤ second) :
    retry.doubled first ≤ retry.doubled second := by
  have hpower : 2 ^ (first - 1) ≤ 2 ^ (second - 1) := Nat.pow_le_pow_right (by omega) (by omega)
  have hproduct := Nat.mul_le_mul_left retry.firstPause hpower
  simp only [doubled]
  omega

theorem next?_eq (retry : Retry) (attempt : Nat) (outcome : Except Fault α) :
    retry.next? attempt outcome =
      if attempt < retry.attempts ∧ ¬settles outcome then some (retry.doubled attempt) else none := by
  cases outcome with
  | ok value => simp [next?, settles]
  | error fault => simp [next?, settles, pauseAfter_eq_doubled]

/-! ## A run in order -/

def lastFrom (outcomes : Nat → Except Fault α) (first left : Nat) : Nat :=
  ((List.range' first (left + 1)).find? fun i => settles (outcomes i)).getD (first + left)

theorem lastFrom_of_settles {outcomes : Nat → Except Fault α} {first : Nat}
    (h : settles (outcomes first)) (left : Nat) : lastFrom outcomes first left = first := by
  simp [lastFrom, List.range'_succ, h]

theorem lastFrom_zero (outcomes : Nat → Except Fault α) (first : Nat) :
    lastFrom outcomes first 0 = first := by
  cases h : settles (outcomes first) <;> simp [lastFrom, List.range'_succ, h]

theorem lastFrom_succ {outcomes : Nat → Except Fault α} {first : Nat}
    (h : ¬settles (outcomes first)) (left : Nat) :
    lastFrom outcomes first (left + 1) = lastFrom outcomes (first + 1) left := by
  have hnumber : first + (left + 1) = first + 1 + left := by omega
  rw [lastFrom, List.range'_succ]
  simp [h, hnumber, lastFrom]

theorem le_lastFrom (outcomes : Nat → Except Fault α) (first left : Nat) :
    first ≤ lastFrom outcomes first left := by
  induction left generalizing first with
  | zero => rw [lastFrom_zero]
  | succ left ih =>
      by_cases h : settles (outcomes first)
      · rw [lastFrom_of_settles h]
      · have hnext := ih (first + 1)
        rw [lastFrom_succ h]
        omega

theorem eventsFrom_self (retry : Retry) (last : Nat) : retry.eventsFrom last last = [.attempt] := by
  simp [eventsFrom]

theorem eventsFrom_of_lt (retry : Retry) {first last : Nat} (h : first < last) :
    retry.eventsFrom first last =
      .attempt :: .pause (retry.doubled first) :: retry.eventsFrom (first + 1) last := by
  have hlength : last - first = last - (first + 1) + 1 := by omega
  rw [eventsFrom, hlength, List.range'_succ]
  rfl

theorem run_runFrom {retry : Retry} {left first : Nat} (hfirst : first + left = retry.attempts)
    (outcomes : Nat → Except Fault α) {events : List Event}
    (hevents : events.count .attempt + 1 = first) :
    (retry.runFrom recordPause (recordAttempt outcomes) left first).run events =
      (outcomes (lastFrom outcomes first left),
        events ++ retry.eventsFrom first (lastFrom outcomes first left)) := by
  induction left generalizing first events with
  | zero =>
      rw [lastFrom_zero, eventsFrom_self, ← hevents]
      rfl
  | succ left ih =>
      rw [runFrom, run_recordAttempt_bind, hevents]
      by_cases h : settles (outcomes first)
      · have hnext : retry.next? first (outcomes first) = none := by simp [next?_eq, h]
        rw [lastFrom_of_settles h, eventsFrom_self]
        simp only [hnext]
        rfl
      · have hlast := le_lastFrom outcomes (first + 1) left
        have hnext : retry.next? first (outcomes first) = some (retry.doubled first) := by
          rw [next?_eq, if_pos ⟨by omega, h⟩]
        have hcount : (events ++ [Event.attempt] ++ [Event.pause (retry.doubled first)]).count .attempt =
            first := by
          simpa using hevents
        rw [lastFrom_succ h, eventsFrom_of_lt retry (by omega)]
        simp only [hnext]
        rw [run_recordPause_bind, ih (by omega) (congrArg (· + 1) hcount)]
        simp

theorem last_eq_lastFrom (retry : Retry) (outcomes : Nat → Except Fault α) :
    retry.last outcomes = lastFrom outcomes 1 (retry.attempts - 1) := by
  have hattempts : 1 ≤ retry.attempts := Nat.le_max_left _ _
  rw [last, lastFrom, Nat.sub_add_cancel hattempts, Nat.add_sub_cancel' hattempts]

theorem lastFrom_le (outcomes : Nat → Except Fault α) (first left : Nat) :
    lastFrom outcomes first left ≤ first + left := by
  unfold lastFrom
  cases h : (List.range' first (left + 1)).find? fun i => settles (outcomes i) with
  | none => simp
  | some i =>
      have hrange := List.mem_range'_1.mp (List.mem_of_find?_eq_some h)
      rw [Option.getD_some]
      omega

/-! ## Counting in words -/

def longestInWord : UInt64 := 0 - 1

def factorInWord (doublings : UInt32) : UInt64 :=
  if doublings < 64 then 1 <<< doublings.toUInt64 else longestInWord

/-- The first pause times the factor, or the longest where the product leaves its word. -/
def pauseInWord (firstPause : UInt64) (doublings : UInt32) : UInt64 :=
  if firstPause.toNat * (factorInWord doublings).toNat < UInt64.size then
    firstPause * factorInWord doublings
  else longestInWord

/-- The attempts of a run with their count in a word of 32 bits, after those that were made:
nothing, should the count not fit. -/
def countFrom {m : Type → Type} [Monad m] (allowed : UInt32) (firstPause : UInt64)
    (pause : Nat → m Unit) (request : m (Except Fault α)) (made : UInt32) :
    m (Option (Except Fault α)) :=
  if hfits : made.toNat + 1 < UInt32.size then do
    let outcome ← request
    if hmore : made + 1 < max 1 allowed ∧ ¬settles outcome then
      pause (pauseInWord firstPause made).toNat
      countFrom allowed firstPause pause request (made + 1)
    else return some outcome
  else return none
termination_by (max 1 allowed).toNat - made.toNat
decreasing_by
  have hless := UInt32.lt_iff_toNat_lt.mp hmore.1
  rw [UInt32.toNat_add] at hless ⊢
  have hone : (1 : UInt32).toNat = 1 := rfl
  have hsize : UInt32.size = 2 ^ 32 := rfl
  omega

theorem toNat_longestInWord : longestInWord.toNat = longestPause := rfl

theorem toNat_factorInWord (doublings : UInt32) :
    (factorInWord doublings).toNat =
      if doublings.toNat < 64 then Nat.pow 2 doublings.toNat else longestPause := by
  have hword : doublings < 64 ↔ doublings.toNat < 64 := UInt32.lt_iff_toNat_lt
  by_cases hfew : doublings.toNat < 64
  · have hpower : 2 ^ doublings.toNat < 2 ^ 64 := Nat.pow_lt_pow_right (by omega) hfew
    have hmod : doublings.toNat % 64 = doublings.toNat := Nat.mod_eq_of_lt hfew
    rw [factorInWord, if_pos (hword.mpr hfew), if_pos hfew]
    simpa [Nat.one_shiftLeft, hmod] using hpower
  · rw [factorInWord, if_neg (mt hword.mp hfew), if_neg hfew, toNat_longestInWord]

theorem toNat_pauseInWord (allowed : Nat) (firstPause : UInt64) (made : UInt32) :
    (pauseInWord firstPause made).toNat =
      pauseAfter ⟨allowed, firstPause.toNat⟩ (made.toNat + 1) := by
  have hsize : UInt64.size = longestPause + 1 := rfl
  rw [pauseInWord, pauseAfter, Nat.add_sub_cancel]
  dsimp only
  rw [← toNat_factorInWord]
  by_cases hfits : firstPause.toNat * (factorInWord made).toNat < UInt64.size
  · rw [if_pos hfits, UInt64.toNat_mul, Nat.mod_eq_of_lt hfits]
    omega
  · rw [if_neg hfits, toNat_longestInWord]
    omega

theorem toNat_max (a b : UInt32) : (max a b).toNat = max a.toNat b.toNat := by
  change (if a ≤ b then b else a).toNat = max a.toNat b.toNat
  split
  · rename_i h
    rw [UInt32.le_iff_toNat_le] at h
    omega
  · rename_i h
    rw [UInt32.le_iff_toNat_le] at h
    omega

section

variable {m : Type → Type} [Monad m] {allowed : UInt32} {firstPause : UInt64} {made : UInt32}

theorem toNat_succ (hfits : made.toNat + 1 < UInt32.size) : (made + 1).toNat = made.toNat + 1 := by
  have hone : (1 : UInt32).toNat = 1 := rfl
  have hsize : UInt32.size = 2 ^ 32 := rfl
  rw [UInt32.toNat_add]
  omega

theorem countFrom_of_fits (hfits : made.toNat + 1 < UInt32.size) (pause : Nat → m Unit)
    (request : m (Except Fault α)) :
    countFrom allowed firstPause pause request made = request >>= fun outcome =>
      if made.toNat + 1 < max 1 allowed.toNat ∧ ¬settles outcome then
        pause (pauseAfter ⟨allowed.toNat, firstPause.toNat⟩ (made.toNat + 1)) >>= fun _ =>
          countFrom allowed firstPause pause request (made + 1)
      else pure (some outcome) := by
  have hmore : made + 1 < max 1 allowed ↔ made.toNat + 1 < max 1 allowed.toNat := by
    rw [UInt32.lt_iff_toNat_lt, toNat_succ hfits, toNat_max]
    rfl
  rw [countFrom, dif_pos hfits]
  simp only [hmore, toNat_pauseInWord allowed.toNat, dite_eq_ite]

/-- The count of the attempts always fits, and so the run is the run without words. -/
theorem countFrom_eq [LawfulMonad m] {left : Nat}
    (hmade : made.toNat + 1 + left = max 1 allowed.toNat) (pause : Nat → m Unit)
    (request : m (Except Fault α)) :
    countFrom allowed firstPause pause request made =
      some <$> runFrom ⟨allowed.toNat, firstPause.toNat⟩ pause request left (made.toNat + 1) := by
  have hallowed := allowed.toNat_lt
  have hsize : UInt32.size = 2 ^ 32 := rfl
  induction left generalizing made with
  | zero =>
      have hend : ¬made.toNat + 1 < max 1 allowed.toNat := by omega
      rw [countFrom_of_fits (by omega), runFrom]
      simp [hend]
  | succ left ih =>
      have hfits : made.toNat + 1 < UInt32.size := by omega
      have hmore : made.toNat + 1 < max 1 allowed.toNat := by omega
      have hleft : (made + 1).toNat + 1 + left = max 1 allowed.toNat := by
        rw [toNat_succ hfits]
        omega
      have hrest := ih hleft
      rw [countFrom_of_fits hfits, runFrom, map_bind]
      congr 1
      funext outcome
      rw [next?_eq, pauseAfter_eq_doubled]
      by_cases h : settles outcome
      · simp [h]
      · simp [h, hmore, attempts, hrest, toNat_succ hfits]

end

/-! ## Every configuration -/

/--
However many attempts are allowed and whatever the first pause is, a run makes the attempts up to
the first that settles the request, or all that are allowed if none does, but at least one.  It
gives the outcome of the last, and pauses after each of the others for the first pause doubled as
often as there were attempts before, cut at 64 bits; so no pause is shorter than the one before.  A
count of the attempts in 32 bits never leaves its word.
-/
theorem run_exact (allowed : UInt32) (firstPause : UInt64) (outcomes : Nat → Except Fault α) :
    let retry : Retry := ⟨allowed.toNat, firstPause.toNat⟩
    let last := retry.last outcomes
    (retry.run recordPause (recordAttempt outcomes)).run [] =
        (outcomes last, retry.eventsFrom 1 last) ∧
      (countFrom allowed firstPause recordPause (recordAttempt outcomes) 0).run [] =
        (some (outcomes last), retry.eventsFrom 1 last) ∧
      1 ≤ last ∧ last ≤ max 1 allowed.toNat ∧ last < 2 ^ 32 ∧
      ∀ i j, i ≤ j → retry.doubled i ≤ retry.doubled j := by
  intro retry last
  have hattempts : 1 + (retry.attempts - 1) = max 1 allowed.toNat :=
    Nat.add_sub_cancel' (Nat.le_max_left _ _)
  have hlast : last = lastFrom outcomes 1 (retry.attempts - 1) := last_eq_lastFrom retry outcomes
  have hle := lastFrom_le outcomes 1 (retry.attempts - 1)
  have hallowed := allowed.toNat_lt
  have hrun : (retry.run recordPause (recordAttempt outcomes)).run [] =
      (outcomes last, retry.eventsFrom 1 last) := by
    rw [hlast]
    exact run_runFrom hattempts outcomes rfl
  refine ⟨hrun, ?_, ?_, by omega, by omega, fun i j => retry.doubled_le_doubled⟩
  · rw [countFrom_eq hattempts, StateT.run_map]
    exact congrArg (fun result => (some result.1, result.2)) hrun
  · rw [hlast]
    exact le_lastFrom outcomes 1 _

end SpecForm.Load.Retry
