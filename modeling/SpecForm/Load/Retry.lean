import SpecForm.Fault

/-!
# Trying again

A request over the network is tried again when it failed on the way or the server
failed.  The pause before each further attempt is twice the last one, up to the
longest that 64 bits can hold.
-/

namespace SpecForm

def Fault.isTransient : Fault → Bool
  | .transport _ _ => true
  | .status _ code => 500 ≤ code
  | _ => false

namespace Load

structure Retry where
  allowed : Nat
  firstPause : Nat
  deriving DecidableEq, Repr

namespace Retry

def attempts (retry : Retry) : Nat := max 1 retry.allowed

def longestPause : Nat := UInt64.size - 1

def pauseAfter (retry : Retry) (attempt : Nat) : Nat :=
  let factor := if attempt - 1 < 64 then Nat.pow 2 (attempt - 1) else longestPause
  min (retry.firstPause * factor) longestPause

def next? {α : Type} (retry : Retry) (attempt : Nat) (outcome : Except Fault α) : Option Nat :=
  match outcome with
  | .ok _ => none
  | .error fault =>
      if attempt < retry.attempts && fault.isTransient then some (retry.pauseAfter attempt)
      else none

variable {m : Type → Type} [Monad m] {α : Type}

def runFrom (retry : Retry) (pause : Nat → m Unit) (request : m (Except Fault α)) :
    Nat → Nat → m (Except Fault α)
  | 0, _ => request
  | left + 1, attempt => do
      let outcome ← request
      match retry.next? attempt outcome with
      | none => return outcome
      | some time =>
          pause time
          runFrom retry pause request left (attempt + 1)

def run (retry : Retry) (pause : Nat → m Unit) (request : m (Except Fault α)) :
    m (Except Fault α) :=
  runFrom retry pause request (retry.attempts - 1) 1

end Retry

end Load

end SpecForm
