/-!
# Time

Lengths of time and points on a monotonic clock, both counted in nanoseconds, and the clock a lock
reads. Subtraction of points stops at zero, so an age is never negative even where a reading runs
backwards.
-/

namespace StoreLock

/-- A length of time in nanoseconds. -/
abbrev Duration := Nat

/-- A point on a monotonic clock, in nanoseconds since that clock's origin. -/
abbrev Instant := Nat

namespace Duration

/-- A length of whole seconds and nanoseconds. -/
def ofParts (secs nanos : Nat) : Duration :=
  secs * 1000000000 + nanos

/-- The whole seconds of a length. -/
def secs (d : Duration) : Nat :=
  d / 1000000000

/-- The nanoseconds that are left beside the whole seconds. -/
def subsecNanos (d : Duration) : Nat :=
  d % 1000000000

/-- The whole milliseconds of a length. -/
def millis (d : Duration) : UInt64 :=
  (d / 1000000).toUInt64

end Duration

/-- How long a call may wait; `none` waits for ever. -/
abbrev WaitLimit := Option Duration

namespace WaitLimit

/-- Whether the time that has passed has reached the limit. -/
def isExpired (limit : WaitLimit) (elapsed : Duration) : Bool :=
  match limit with
  | none => false
  | some most => decide (most ≤ elapsed)

/-- What is left at `now` of a wait that began at `start`. -/
def remaining (limit : WaitLimit) (start now : Instant) : Option Duration :=
  match limit with
  | none => none
  | some most => some (most - (now - start))

/-- A pause of at most `duration` that does not outlast the limit. -/
def cut (limit : WaitLimit) (start now : Instant) (duration : Duration) : Duration :=
  match limit.remaining start now with
  | none => duration
  | some left => min left duration

end WaitLimit

/-- A clock that moves only when it is told to. -/
structure Clock where
  /-- Monotonic time. -/
  now : Instant
  /-- Wall-clock milliseconds since the Unix epoch. -/
  unixMillis : UInt64
deriving DecidableEq, Repr

namespace Clock

/-- A clock at its origin whose wall clock shows `unixMillis`. -/
def startingAt (unixMillis : UInt64) : Clock :=
  ⟨0, unixMillis⟩

/-- The clock that is used where no start is asked for. -/
def initial : Clock :=
  startingAt 1700000000000

/-- Moves both readings; the wall clock gains the whole milliseconds of this one step. Monotonic time has no end here;
that of a system has, and so has its wall clock (`Clock.Fits`). -/
def advance (c : Clock) (d : Duration) : Clock :=
  ⟨c.now + d, c.unixMillis + d.millis⟩

/-- Whether a clock of a system can be moved so far: it counts seconds in 63 bits and the milliseconds of its wall clock
in 64. -/
structure Fits (c : Clock) (d : Duration) : Prop where
  now : Duration.secs (c.now + d) < UInt64.size / 2
  unixMillis : c.unixMillis.toNat + d / 1000000 < UInt64.size

variable {c : Clock} {d d' : Duration}

theorem Fits.mono (h : c.Fits d) (hle : d' ≤ d) : c.Fits d' := by
  obtain ⟨hnow, hunix⟩ := h
  refine ⟨Nat.lt_of_le_of_lt (Nat.div_le_div_right (Nat.add_le_add_left hle _)) hnow, ?_⟩
  exact Nat.lt_of_le_of_lt (Nat.add_le_add_left (Nat.div_le_div_right hle) _) hunix

/-- Within the range the wall clock does not wrap round. -/
theorem Fits.unixMillis_advance (h : c.Fits d) :
    (c.advance d).unixMillis.toNat = c.unixMillis.toNat + d / 1000000 := by
  have hunix := h.unixMillis
  have hmillis : d.millis.toNat = d / 1000000 := by
    rw [Duration.millis, Nat.toUInt64_eq, UInt64.toNat_ofNat_of_lt' (by omega)]
  rw [advance, UInt64.toNat_add, hmillis, Nat.mod_eq_of_lt hunix]

/-- A clock that can be moved so far in one step can be moved as far in two. -/
theorem Fits.advance (h : c.Fits (d + d')) : (c.advance d).Fits d' := by
  have hunix := (h.mono (Nat.le_add_right d d')).unixMillis_advance
  obtain ⟨hnow, hsum⟩ := h
  refine ⟨?_, ?_⟩
  · show Duration.secs (c.now + d + d') < UInt64.size / 2
    rwa [Nat.add_assoc]
  · rw [hunix]
    omega

end Clock

end StoreLock
