import StoreLock.Lock.Basic

/-!
# Calls of a lock

Taking and giving back a lock, as a machine that stops wherever it needs the outside world: at each
request to the store and at each pause. What is left of a call between two stops is its phase, so a
call that is dropped half-way is one whose phase is thrown away; what it did to the lock stays.

To take the lock, a contender lists the queue, creates an entry with a fresh sequence and pauses for
the settling time. Then it lists the queue again and again, deletes entries that have grown stale,
and holds the lock as soon as its own entry comes first. An entry that has vanished for longer than
the timeout is replaced by a new one. Every end but success deletes the own entry.
-/

namespace StoreLock

/-- What a lock wants from its store. -/
inductive Request
  /-- Every name that starts with the lock's listing prefix. -/
  | list
  /-- An object with this name and these contents, in place of any other of the name. -/
  | create (name : String) (contents : ByteArray)
  /-- No object with this name. -/
  | delete (name : String)

/-- What a store answers to a request. -/
def Request.Answer : Request → Type
  | .list => Except StoreError (List String)
  | .create _ _ => Except StoreError Unit
  | .delete _ => Except StoreError Unit

/-- What a lock reads whenever it goes on. -/
structure Reading where
  /-- Monotonic time. -/
  now : Instant
  /-- Wall-clock milliseconds. -/
  unixMillis : UInt64
  /-- Whether the caller wants the call to end. -/
  cancelled : Bool
deriving DecidableEq, Repr

/-- How a call ended. -/
inductive Outcome
  /-- The lock is held. -/
  | acquired
  /-- The wait ran out. -/
  | gaveUp
  /-- The lock is given back. -/
  | released
  /-- The call failed. -/
  | failed (error : LockError)
deriving DecidableEq, Repr

/-- How a pause ended. -/
inductive PauseEnd
  | elapsed
  | cancelled
deriving DecidableEq, Repr

/-- How long a call may go on. -/
structure Window where
  /-- When the call began. -/
  start : Instant
  /-- How long it may wait. -/
  limit : WaitLimit
deriving DecidableEq, Repr

namespace Window

/-- Whether the call has no time left. -/
def isOver (w : Window) (now : Instant) : Bool :=
  w.limit.isExpired (now - w.start)

/-- A pause that does not outlast the call. -/
def cut (w : Window) (now : Instant) (duration : Duration) : Duration :=
  w.limit.cut w.start now duration

end Window

namespace Lock

/-- What is left of a call that waits for its store. -/
inductive Phase
  /-- The entry of a call that was dropped is being deleted before the call begins. -/
  | clearing (limit : WaitLimit) (name : String)
  /-- The queue is being listed so that the new entry comes behind it. -/
  | seeding (w : Window)
  /-- The new entry is being created. -/
  | creating (w : Window) (entry : Entry) (contents : ByteArray)
  /-- The queue is being listed to see where the own entry stands. -/
  | ranking (w : Window)
  /-- A stale entry is being deleted, and then the rest of them. -/
  | reclaiming (w : Window) (standing : Standing) (name : String) (rest : List String)
  /-- What may be left of the own entry is being deleted before a new one is created. -/
  | discarding (w : Window) (name : String)
  /-- The own entry is being deleted because the call has ended in this way. -/
  | abandoning (name : String) (outcome : Outcome)
  /-- The own entry is being deleted because the lock is given back. -/
  | releasing (name : String)

/-- What a call in this phase waits for. -/
def Phase.request : Phase → Request
  | .clearing _ name => .delete name
  | .seeding _ => .list
  | .creating _ entry contents => .create entry.name contents
  | .ranking _ => .list
  | .reclaiming _ _ name _ => .delete name
  | .discarding _ name => .delete name
  | .abandoning name _ => .delete name
  | .releasing name => .delete name

/-- What is left of a call that pauses; either way it ranks the own entry next. -/
structure Rest where
  /-- How long the call may go on. -/
  window : Window
deriving DecidableEq, Repr

/-- How far a call has come. -/
inductive Progress
  /-- It waits for its store. -/
  | request (phase : Phase)
  /-- It pauses. -/
  | pause (duration : Duration) (rest : Rest)
  /-- It has ended. -/
  | done (outcome : Outcome)

/-- A lock and how far its call has come. -/
abbrev Turn := Lock × Progress

/-- Ends a call that does not succeed: the own entry, if there is one, is deleted first. -/
def abandon (l : Lock) (outcome : Outcome) : Turn :=
  match l.attempt with
  | none => ({ l with state := .idle }, .done outcome)
  | some a => (l.withoutAttempt, .request (.abandoning a.entry.name outcome))

/-- Pauses, unless the caller wants the call to end. -/
def pause (l : Lock) (w : Window) (duration : Duration) (r : Reading) : Turn :=
  if r.cancelled then l.abandon (.failed .cancelled)
  else (l, .pause (w.cut r.now duration) ⟨w⟩)

/-- Goes on once nothing is left of an earlier call. -/
def start (l : Lock) (limit : WaitLimit) (r : Reading) : Turn :=
  let l := { l with state := .acquiring }
  if r.cancelled then l.abandon (.failed .cancelled)
  else (l, .request (.seeding ⟨r.now, limit⟩))

/-- Begins to take the lock. -/
def acquire (l : Lock) (limit : WaitLimit) (r : Reading) : Turn :=
  match l.state with
  | .held => (l, .done (.failed (.alreadyLocked l.lockPrefix)))
  | .idle => l.start limit r
  | .acquiring | .failed =>
    match l.attempt with
    | none => { l with state := .idle }.start limit r
    | some a => (l.withoutAttempt, .request (.clearing limit a.entry.name))

/-- Begins to give the lock back. -/
def release (l : Lock) : Turn :=
  if l.state = .held then
    match l.attempt with
    | none => ({ l with state := .idle }, .done .released)
    | some a => ({ l.withoutAttempt with state := .idle }, .request (.releasing a.entry.name))
  else (l, .done (.failed (.notLocked l.lockPrefix)))

/-- Draws a sequence behind the listed queue and asks for an entry with it. -/
def register (l : Lock) (w : Window) (listed : List String) (r : Reading) : Turn :=
  let l := l.observe listed r.now
  let (sequence, sequencer) := l.sequencer.next r.unixMillis
  let entry : Entry := ⟨l.lockPrefix, sequence, l.owner⟩
  let marker : Marker := ⟨l.owner.text, sequence, r.unixMillis⟩
  ({ l with sequencer }, .request (.creating w entry marker.contents))

/-- Goes on as the standing of the own entry asks for. How often a call has ranked its entry is not kept: that count is
only logged, and its 32 bits are used up only by a wait of as many listings. -/
def conclude (l : Lock) (w : Window) (standing : Standing) (r : Reading) : Turn :=
  match standing with
  | .first => ({ l with state := .held }, .done .acquired)
  | .waiting =>
    if w.isOver r.now then { l with state := .failed }.abandon .gaveUp
    else l.pause w l.timings.polling r
  | .reclaimed =>
    match l.attempt with
    | none => (l, .request (.seeding w))
    | some a => (l.withoutAttempt, .request (.discarding w a.entry.name))

/-- Deletes the stale names one after another and then goes on. -/
def reclaim (l : Lock) (w : Window) (standing : Standing) (names : List String) (r : Reading) :
    Turn :=
  match names with
  | [] => l.conclude w standing r
  | name :: rest => (l, .request (.reclaiming w standing name rest))

/-- Judges a listing: what is stale and where the own entry stands. -/
def judge (l : Lock) (w : Window) (listed : List String) (r : Reading) : Turn :=
  match l.attempt with
  | none => l.conclude w .reclaimed r
  | some a =>
    let l := l.observe listed r.now
    l.reclaim w (l.standing a listed r.now) (l.stale a.entry listed r.now) r

/-- Goes on after a pause. -/
def wake (l : Lock) (rest : Rest) (ended : PauseEnd) (r : Reading) : Turn :=
  match ended with
  | .cancelled => l.abandon (.failed .cancelled)
  | .elapsed =>
    match l.attempt with
    | none => l.conclude rest.window .reclaimed r
    | some _ => (l, .request (.ranking rest.window))

/-- Goes on with the answer of the store. -/
def resume (l : Lock) : (phase : Phase) → phase.request.Answer → Reading → Turn
  | .clearing limit _, _, r => { l with state := .idle }.start limit r
  | .seeding w, .ok listed, r => l.register w listed r
  | .seeding _, .error e, _ => l.abandon (.failed (.store e))
  | .creating w entry _, .ok (), r =>
    { l with attempt := some ⟨entry, r.now⟩ }.pause w l.timings.settling r
  | .creating _ _ _, .error e, _ => l.abandon (.failed (.store e))
  | .ranking w, .ok listed, r => l.judge w listed r
  | .ranking _, .error e, _ => l.abandon (.failed (.store e))
  | .reclaiming w standing _ rest, _, r => l.reclaim w standing rest r
  | .discarding w _, _, _ => (l, .request (.seeding w))
  | .abandoning _ outcome, _, _ => ({ l with state := .idle }, .done outcome)
  | .releasing _, .ok (), _ => (l, .done .released)
  | .releasing _, .error e, _ => (l, .done (.failed (.store e)))

end Lock

end StoreLock
