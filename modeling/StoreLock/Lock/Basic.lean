import StoreLock.Entry
import StoreLock.Marker
import StoreLock.Sequencer
import StoreLock.Sightings
import StoreLock.Timings

/-!
# Locks

One contender's lock for one prefix. It keeps what the contender knows of the queue, the sequences
and the times at which names were first seen, and the entry of its current attempt. All that other
contenders see of it are objects in the store.
-/

namespace StoreLock

/-- Where a lock stands in its life. -/
inductive LockState
  | idle
  | acquiring
  | held
  /-- The last attempt ran out of time; its entry is being deleted. -/
  | failed
deriving DecidableEq, Repr

/-- The entry that the current attempt has created. -/
structure Attempt where
  /-- The entry. -/
  entry : Entry
  /-- The time at which the store had created it. -/
  createdAt : Instant
deriving DecidableEq, Repr

/-- A lock for one prefix and one owner. -/
structure Lock where
  /-- What the lock is for. -/
  lockPrefix : String
  /-- Who competes for it. -/
  owner : OwnerId
  /-- The timings of the protocol. -/
  timings : Timings
  /-- The source of sequences. -/
  sequencer : Sequencer := {}
  /-- When names were first seen. -/
  sightings : Sightings := {}
  /-- Where the lock stands. -/
  state : LockState := .idle
  /-- The entry of the current attempt. -/
  attempt : Option Attempt := none
deriving DecidableEq, Repr

namespace Lock

/-- A new lock, if its prefix and its timings are accepted. -/
def create (lockPrefix : String) (owner : OwnerId) (timings : Timings)
    (strategy : Strategy := .standard) : Except LockError Lock :=
  match checkPrefix lockPrefix with
  | .error e => .error e
  | .ok () =>
    match timings.check with
    | .error e => .error e
    | .ok () => .ok { lockPrefix, owner, timings, sequencer := { strategy } }

/-- What the names of this lock's entries start with. -/
def listing (l : Lock) : String :=
  Entry.listing l.lockPrefix

/-- The name of the entry of the current attempt. -/
def entryName? (l : Lock) : Option String :=
  l.attempt.map fun a => a.entry.name

/-- Whether the lock is held. -/
def isHeld (l : Lock) : Bool :=
  l.state == .held

/-- The entry of this lock's queue with this name; other names are nobody's business here. -/
def queued? (l : Lock) (name : String) : Option Entry :=
  match Entry.read name with
  | .ok e => if e.lockPrefix = l.lockPrefix then some e else none
  | .error _ => none

/-- Takes note of one listed name. -/
def note (l : Lock) (now : Instant) (name : String) : Lock :=
  match l.queued? name with
  | none => l
  | some e => { l with
      sequencer := l.sequencer.observe e.sequence
      sightings := (l.sightings.observe name now).2 }

/-- Takes note of a listing: forgets the names that are gone and notes those of the queue. -/
def observe (l : Lock) (listed : List String) (now : Instant) : Lock :=
  listed.foldl (note · now) { l with sightings := l.sightings.retain listed }

/-- Whether a listed name is another's entry that has been seen for longer than the timeout. -/
def isReclaimable (l : Lock) (own : Entry) (now : Instant) (name : String) : Bool :=
  (l.queued? name).isSome && name != own.name && l.sightings.isStale name now l.timings.timeout

/-- Where the own entry stands after a listing. -/
inductive Standing
  /-- No entry that counts comes before it. -/
  | first
  /-- Others come before it, or it cannot be seen yet. -/
  | waiting
  /-- It is gone, and old enough that another was entitled to delete it. -/
  | reclaimed
deriving DecidableEq, Repr

/-- The listed entries that count: those of the queue that are not to be reclaimed. -/
def eligible (l : Lock) (own : Entry) (listed : List String) (now : Instant) : List Entry :=
  (listed.filter fun name => !l.isReclaimable own now name).filterMap l.queued?

/-- The listed names that are to be reclaimed, in the order of the listing. -/
def stale (l : Lock) (own : Entry) (listed : List String) (now : Instant) : List String :=
  listed.filter (l.isReclaimable own now)

/-- Where the entry of an attempt stands in a listing. -/
def standing (l : Lock) (a : Attempt) (listed : List String) (now : Instant) : Standing :=
  let entries := l.eligible a.entry listed now
  if a.entry ∈ entries then
    if entries.all (a.entry.le ·) then .first else .waiting
  else if l.timings.timeout < now - a.createdAt then .reclaimed
  else .waiting

/-- The lock without its attempt, of which it forgets the sighting. -/
def withoutAttempt (l : Lock) : Lock :=
  match l.attempt with
  | none => l
  | some a => { l with attempt := none, sightings := l.sightings.forget a.entry.name }

end Lock

end StoreLock
