/-!
# Sequences

The number that a new entry is queued with. It starts from a base, the wall clock or zero, and is
raised above every number drawn before and every number seen in the queue, so a contender never
draws a number below one it knows of. At the largest number it stays.
-/

namespace StoreLock

/-- What the number of a new entry starts from. -/
inductive Strategy
  /-- Wall-clock milliseconds. -/
  | timestamp
  /-- Zero. -/
  | counter
deriving DecidableEq, Repr

namespace Strategy

/-- The strategy where none is asked for. -/
def standard : Strategy := .timestamp

end Strategy

/-- A source of sequences for one lock. -/
structure Sequencer where
  /-- What a number starts from. -/
  strategy : Strategy := .standard
  /-- The number drawn last. -/
  last : Option UInt64 := none
  /-- The largest number seen in the queue. -/
  highestSeen : Option UInt64 := none
deriving DecidableEq, Repr

namespace Sequencer

/-- The largest sequence. -/
def most : UInt64 := 18446744073709551615

/-- The number after this one; the largest has none and stays. -/
def after (n : UInt64) : UInt64 :=
  if n = most then n else n + 1

/-- The least number above what is known, or zero if nothing is. -/
def above (known : Option UInt64) : UInt64 :=
  match known with
  | none => 0
  | some n => after n

/-- What a number starts from when the wall clock shows `unixMillis`. -/
def base (s : Sequencer) (unixMillis : UInt64) : UInt64 :=
  match s.strategy with
  | .timestamp => unixMillis
  | .counter => 0

/-- Takes note of a number seen in the queue. -/
def observe (s : Sequencer) (n : UInt64) : Sequencer :=
  { s with highestSeen := some (match s.highestSeen with
      | none => n
      | some high => max high n) }

/-- The next number, and the source that remembers it. -/
def next (s : Sequencer) (unixMillis : UInt64) : UInt64 × Sequencer :=
  let n := max (s.base unixMillis) (max (above s.last) (above s.highestSeen))
  (n, { s with last := some n })

end Sequencer

end StoreLock
