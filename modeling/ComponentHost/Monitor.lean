import ComponentHost.Duration

/-!
Waiting for a boundary to go. A monitor looks at the boundary, sleeps, and looks again, until the
boundary is gone, the attempts are used up, or the caller cancels the wait. Time is a number of
nanoseconds since the wait began.
-/
set_option autoImplicit false

namespace ComponentHost

structure Monitor where
  maxAttempts : UInt32
  delay : Duration
  deriving DecidableEq

def Monitor.standard : Monitor := ⟨10, .ofMillis 100⟩

inductive UnloadOutcome where
  /-- The boundary was gone after these many attempts. -/
  | reclaimed (attempts : Nat)
  /-- The boundary was there after every attempt. -/
  | exhausted (attempts : Nat)
  deriving DecidableEq, Repr

namespace UnloadOutcome

def isReclaimed : UnloadOutcome → Bool
  | .reclaimed _ => true
  | .exhausted _ => false

def attempts : UnloadOutcome → Nat
  | .reclaimed n => n
  | .exhausted n => n

end UnloadOutcome

/-- Why there is no outcome, or no good one. -/
inductive UnloadError where
  /-- The wait for the boundary with this number was cancelled. -/
  | cancelled (boundary attempts : Nat)
  /-- The boundary was never gone. -/
  | timeout (attempts : Nat)
  deriving DecidableEq, Repr

def UnloadOutcome.toResult : UnloadOutcome → Except UnloadError Nat
  | .reclaimed attempts => .ok attempts
  | .exhausted attempts => .error (.timeout attempts)

/-- What happens while a wait goes on: when the boundary is gone and when the wait's token fires, if
ever. A time of zero means that it had happened before. -/
structure Course where
  goneAt : Option Nat
  firesAt : Option Nat

def Course.isLive (course : Course) (now : Nat) : Bool :=
  match course.goneAt with
  | none => true
  | some t => now < t

/-- Whether the token wakes a sleep that starts at a time and is to last so long. -/
def Course.interrupts? (course : Course) (now delay : Nat) : Option Nat :=
  match course.firesAt with
  | none => none
  | some t => if t ≤ now then some now else if t < now + delay then some t else none

structure Wait where
  /-- The outcome; none when the wait was cancelled. -/
  outcome : Option UnloadOutcome
  /-- The attempts that were made. -/
  attempts : Nat
  /-- The time at the end. -/
  elapsed : Nat
  deriving DecidableEq, Repr

def Course.finish (course : Course) (now attempts : Nat) : Wait :=
  { outcome := some (if course.isLive now then .exhausted attempts else .reclaimed attempts)
    attempts := attempts
    elapsed := now }

/-- Waits on, with attempts made so far and attempts left. -/
def Course.poll (course : Course) (delay : Nat) : Nat → Nat → Nat → Wait
  | now, attempts, 0 => course.finish now attempts
  | now, attempts, left + 1 =>
    if course.isLive now then
      match course.interrupts? now delay with
      | some t => { outcome := none, attempts := attempts, elapsed := t }
      | none => course.poll delay (now + delay) (attempts + 1) left
    else course.finish now attempts

def Monitor.wait (monitor : Monitor) (course : Course) : Wait :=
  course.poll monitor.delay.toNanos 0 0 monitor.maxAttempts.toNat

end ComponentHost
