import StoreLock.Time

/-!
# Sightings

When a contender first saw each name. Nothing in the store is trusted as a time: the age of an entry
counts from the first listing that showed it, on the contender's own clock, and a name that drops
out of a listing starts anew.
-/

namespace StoreLock

/-- The times at which names were first seen. -/
structure Sightings where
  /-- Each name with the time it was first seen. -/
  firstSeen : List (String × Instant) := []
deriving DecidableEq, Repr

namespace Sightings

/-- How long a name has been seen for, if it has been seen. -/
def age? (s : Sightings) (name : String) (now : Instant) : Option Duration :=
  (s.firstSeen.lookup name).map (now - ·)

/-- Notes that a name was listed, and tells how long it has been seen for; only the first time
counts. -/
def observe (s : Sightings) (name : String) (now : Instant) : Duration × Sightings :=
  match s.firstSeen.lookup name with
  | some first => (now - first, s)
  | none => (0, ⟨(name, now) :: s.firstSeen⟩)

/-- Whether a name has been seen for longer than `timeout`. -/
def isStale (s : Sightings) (name : String) (now : Instant) (timeout : Duration) : Bool :=
  match s.age? name now with
  | none => false
  | some age => decide (timeout < age)

/-- Drops the names that are no longer listed. -/
def retain (s : Sightings) (listed : List String) : Sightings :=
  ⟨s.firstSeen.filter fun p => listed.contains p.1⟩

/-- Drops one name. -/
def forget (s : Sightings) (name : String) : Sightings :=
  ⟨s.firstSeen.filter fun p => p.1 != name⟩

end Sightings

end StoreLock
