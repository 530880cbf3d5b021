import StoreLock.Session
import StoreLock.Store.MemoryStore

/-!
# Simulated contenders

Several locks on one store in virtual time. A contender carries out a program of calls and sleeps;
whenever it has to wait, for a pause or for the latency of a store call, a timer is set, and what is
left of the contender until that timer fires is plain data.
-/

namespace StoreLock

namespace Simulation

/-- How long a store call takes before and after it takes effect. -/
structure Latency where
  before : Duration := 0
  after : Duration := 0
deriving DecidableEq, Repr

/-- How a contender's store orders listings. -/
inductive ListingOrder
  | plain
  | reversed
  /-- Every name twice in a row. -/
  | doubled
deriving DecidableEq, Repr

/-- A listing in this order. -/
def ListingOrder.arrange (order : ListingOrder) (names : List String) : List String :=
  match order with
  | .plain => names
  | .reversed => names.reverse
  | .doubled => names.flatMap fun name => [name, name]

/-- One part of a program. -/
inductive Item
  /-- Takes the lock; `cancel` is what the cancel channel holds, if there is to be one. -/
  | acquire (limit : WaitLimit) (cancel : Option Bool)
  /-- Gives the lock back. -/
  | release
  | sleep (duration : Duration)
deriving DecidableEq, Repr

/-- What has a name in the log. -/
inductive Activity
  | acquire
  | release
  | program
deriving DecidableEq, Repr

/-- When a timer fires; of two at one time the lower ticket goes first. -/
structure Timer where
  time : Instant
  ticket : Nat
deriving DecidableEq, Repr

/-- Whether one timer fires before another. -/
def Timer.before (a b : Timer) : Bool :=
  decide (a.time < b.time) || (a.time == b.time && decide (a.ticket < b.ticket))

/-- What a contender waits for. -/
inductive Stop
  /-- The end of a sleep in its program. -/
  | sleeping
  /-- The end of a pause of its lock, which has come this far. -/
  | pausing (nap : Nap) (rest : Lock.Rest)
  /-- The time at which a store call takes effect. -/
  | requesting (phase : Lock.Phase)
  /-- The time at which the answer to a store call arrives. -/
  | replying (phase : Lock.Phase) (answer : phase.request.Answer)

/-- What is left of a program apart from the call in progress. -/
structure Work where
  /-- What the call in progress is, where there is one. -/
  activity : Activity
  /-- The cancel channel of the call in progress. -/
  channel : Option CancelChannel
  /-- What comes after it. -/
  rest : List Item

/-- A program that waits. -/
structure Routine where
  /-- What it waits for. -/
  stop : Stop
  /-- When it goes on. -/
  timer : Timer
  /-- What is left of it. -/
  work : Work

/-- Whether a call of the lock is in progress. -/
def Routine.isCalling (r : Routine) : Bool :=
  match r.stop with
  | .sleeping => false
  | _ => true

/-- One contender. -/
structure Contender where
  /-- What the log calls it. -/
  name : String
  /-- Its lock. -/
  lock : Lock
  /-- Its client of the store. -/
  client : Nat := MemoryStore.mainClient
  /-- What its wall clock shows when virtual time begins. -/
  unixMillis : UInt64 := 1000000
  /-- How long its store calls take. -/
  latency : PerCall Latency := .all {}
  /-- How its listings are ordered. -/
  order : ListingOrder := .plain
  /-- The program it is in. -/
  routine : Option Routine := none

/-- What can be seen of a lock from outside. -/
inductive Status
  /-- A call is in progress. -/
  | running
  | resting (state : LockState) (entry : Option String)
deriving DecidableEq, Repr

/-- The state and the entry of a contender's lock. -/
def Contender.rested (c : Contender) : Status :=
  .resting c.lock.state c.lock.entryName?

/-- What can be seen of a contender's lock. -/
def Contender.status (c : Contender) : Status :=
  match c.routine with
  | some r => if r.isCalling then .running else c.rested
  | none => c.rested

/-- Something that has happened. -/
inductive Event
  | created (who name : String) (contents : ByteArray) (got : Except StoreError Unit)
  | deleted (who name : String) (got : Except StoreError Unit)
  | listed (who start : String) (got : Except StoreError (List String))
  /-- A call of a lock has ended. -/
  | ended (who : String) (activity : Activity) (outcome : Outcome) (status : Status)
  /-- A contender was given something to do before it was done. -/
  | busy (who : String) (activity : Activity)
  /-- What a contender was doing is dropped. -/
  | abandoned (who : String) (status : Status)
  /-- A contender's lock was looked at. -/
  | seen (who : String) (status : Status)
  /-- An object was created beside all locks. -/
  | put (got : Except StoreError Unit)
  /-- An object was deleted beside all locks. -/
  | removed (got : Except StoreError Unit)
  /-- The objects that exist were looked at. -/
  | names (got : List String)

/-- Something that is done to the simulation from outside. -/
inductive Command
  /-- Gives a contender something to do. -/
  | start (who : String) (activity : Activity) (program : List Item)
  /-- Sends a value to the cancel channel of a contender's call. -/
  | cancel (who : String) (value : Bool)
  /-- Leaves nobody to send to the cancel channel of a contender's call. -/
  | dropCancel (who : String)
  /-- Drops what a contender is doing, as it stands. -/
  | abandon (who : String)
  /-- Looks at a contender's lock. -/
  | look (who : String)
  | put (client : Nat) (name : String) (contents : ByteArray)
  | remove (client : Nat) (name : String)
  | names
  /-- Changes the store itself. -/
  | change (f : MemoryStore → MemoryStore)
  /-- Makes a coming call of a kind fail without reaching the store. -/
  | inject (kind : CallKind) (error : StoreError)

end Simulation

/-- Contenders in virtual time. -/
structure Simulation where
  /-- Virtual time. -/
  now : Instant := 0
  /-- The one store. -/
  store : MemoryStore := {}
  /-- The contenders, each with a name of its own. -/
  contenders : List Simulation.Contender := []
  /-- The ticket of the next timer. -/
  tickets : Nat := 0
  /-- The errors that coming calls of each kind fail with. -/
  injected : PerCall (List StoreError) := .all []
  /-- What has happened and when, the newest first. -/
  log : List (Instant × Simulation.Event) := []

end StoreLock
