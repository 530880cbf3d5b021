import StoreLock.Error

/-!
# Locks that nobody contends for

Where nothing is shared there is nothing to arbitrate: taking such a lock succeeds at once and
nothing is written anywhere.
-/

namespace StoreLock

/-- A lock that is always free for its only user. -/
structure StaticLock where
  /-- What the lock is for. -/
  lockPrefix : String
  /-- Whether it is held. -/
  isHeld : Bool := false
deriving DecidableEq, Repr

namespace StaticLock

/-- Takes the lock. -/
def acquire (l : StaticLock) : Except LockError Unit × StaticLock :=
  if l.isHeld then (.error (.alreadyLocked l.lockPrefix), l)
  else (.ok (), { l with isHeld := true })

/-- Gives the lock back. -/
def release (l : StaticLock) : Except LockError Unit × StaticLock :=
  if l.isHeld then (.ok (), { l with isHeld := false })
  else (.error (.notLocked l.lockPrefix), l)

end StaticLock

end StoreLock
