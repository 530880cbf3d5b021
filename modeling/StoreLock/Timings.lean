import StoreLock.Duration.Short
import StoreLock.Error

/-!
# Timings

The three lengths of time the protocol depends on, and what has to hold between them.
-/

namespace StoreLock

/-- The timings of a lock. -/
structure Timings where
  /-- The age after which an entry may be deleted by any contender. -/
  timeout : Duration
  /-- The pause between two listings of a waiting contender. -/
  polling : Duration
  /-- The pause between creating an entry and the first listing. -/
  settling : Duration
deriving DecidableEq, Repr

namespace Timings

/-- Timings for object stores in the cloud. -/
def recommended : Timings where
  timeout := .ofParts (15 * 60) 0
  polling := .ofParts 1 0
  settling := .ofParts 5 0

/-- Why timings are refused. -/
inductive Fault
  | zeroPolling
  | timeoutWithinSettling (timeout settling : Duration)
deriving DecidableEq, Repr

/-- The fault in words. -/
def Fault.detail : Fault → String
  | .zeroPolling => "polling interval must be greater than zero"
  | .timeoutWithinSettling timeout settling =>
    "timeout (" ++ timeout.short ++ ") must be longer than settling (" ++ settling.short ++ ")"

/-- The first fault of timings, if they have one. -/
def fault? (t : Timings) : Option Fault :=
  if t.polling = 0 then some .zeroPolling
  else if t.timeout ≤ t.settling then some (.timeoutWithinSettling t.timeout t.settling)
  else none

/-- Checks the timings. -/
def check (t : Timings) : Except LockError Unit :=
  match t.fault? with
  | some fault => .error (.invalidConfig fault.detail)
  | none => .ok ()

end Timings

end StoreLock
