import StoreLock.Channel
import StoreLock.Provider
import StoreLock.Store.Basic

/-!
# Sessions

Locks on one store that take turns: each call runs to its end before the next begins, and a pause
moves the clock and goes on at once. The store calls of locks are recorded, and actions can be set
to happen right before or after one of them or during a pause, as another process would do while a
call is under way.
-/

namespace StoreLock

/-- One store call of a lock, with its answer. -/
structure CallRecord where
  /-- What the names of the lock's entries start with. -/
  listing : String
  /-- What the lock wanted. -/
  request : Request
  /-- What it got. -/
  answer : request.Answer

/-- Something that happens beside a call of a lock, on the main client. -/
inductive HookAction (σ : Type)
  | create (name : String)
  | delete (name : String)
  | advance (duration : Duration)
  | cancel (value : Bool)
  /-- Nobody is left to send over the channel of the call. -/
  | dropSender
  /-- The store itself is changed. -/
  | change (f : σ → σ)

/-- When something can happen beside a call of a lock. -/
inductive Moment
  /-- Right before a store call of this kind. -/
  | before (kind : CallKind)
  /-- Right after a store call of this kind. -/
  | after (kind : CallKind)
  /-- While the call pauses. -/
  | pausing
deriving DecidableEq, Repr

/-- Actions that wait for their moment. -/
structure Hook (σ : Type) where
  /-- The kind of moment they wait for. -/
  moment : Moment
  /-- How many such moments are left to come, the one in question included. -/
  countdown : Nat
  /-- What happens. -/
  actions : List (HookAction σ)

/-- A store with a clock and all that is under way in it. -/
structure Session (σ Client : Type) where
  /-- The one clock. -/
  clock : Clock
  /-- The one store. -/
  store : σ
  /-- The client that hooks act on. -/
  main : Client
  /-- The hooks that are still to fire. -/
  hooks : List (Hook σ) := []
  /-- The channel of the call in progress. -/
  channel : Option CancelChannel := none
  /-- The store calls of the last call of a lock. -/
  calls : List CallRecord := []
  /-- For each of the coming pauses, whether it asks its channel before its clock; where nothing is
  said, it asks the clock first. -/
  order : List Bool := []

namespace Session

variable {σ Client : Type}

/-- Moves the clock. -/
def advance (s : Session σ Client) (d : Duration) : Session σ Client :=
  { s with clock := s.clock.advance d }

/-- Sets a hook. -/
def addHook (s : Session σ Client) (h : Hook σ) : Session σ Client :=
  { s with hooks := s.hooks ++ [h] }

/-- What a lock reads now. -/
def reading (s : Session σ Client) : Reading where
  now := s.clock.now
  unixMillis := s.clock.unixMillis
  cancelled := (s.channel.map (·.value)).getD false

variable [ObjectStore σ Client]

/-- Creates an object, beside all locks. -/
def create (s : Session σ Client) (client : Client) (name : String) (contents : ByteArray) :
    Except StoreError Unit × Session σ Client :=
  let (answer, store) := ObjectStore.create s.store client s.clock.now name contents
  (answer, { s with store })

/-- Deletes an object, beside all locks. -/
def delete (s : Session σ Client) (client : Client) (name : String) :
    Except StoreError Unit × Session σ Client :=
  let (answer, store) := ObjectStore.delete s.store client s.clock.now name
  (answer, { s with store })

/-- Lists names, beside all locks. -/
def list (s : Session σ Client) (client : Client) (start : String) :
    Except StoreError (List String) × Session σ Client :=
  let (answer, store) := ObjectStore.list s.store client s.clock.now start
  (answer, { s with store })

/-- Lets one action happen. -/
def act (s : Session σ Client) : HookAction σ → Session σ Client
  | .create name => (s.create s.main name ByteArray.empty).2
  | .delete name => (s.delete s.main name).2
  | .advance d => s.advance d
  | .cancel value => { s with channel := s.channel.map (·.send value) }
  | .dropSender => { s with channel := s.channel.map (·.dropSender) }
  | .change f => { s with store := f s.store }

/-- Counts down the hooks that wait for such a moment, and fires those that are due in their order. -/
def fire (s : Session σ Client) (moment : Moment) : Session σ Client :=
  let counts (h : Hook σ) : Bool := h.moment == moment
  let isDue (h : Hook σ) : Bool := counts h && decide (h.countdown ≤ 1)
  let left := (s.hooks.filter fun h => !isDue h).map fun h =>
    if counts h then { h with countdown := h.countdown - 1 } else h
  ((s.hooks.filter isDue).flatMap (·.actions)).foldl act { s with hooks := left }

/-- Carries out a request of a lock with this listing prefix, and records it. -/
def call (s : Session σ Client) (client : Client) (listing : String) (request : Request) :
    request.Answer × Session σ Client :=
  let s := s.fire (.before request.kind)
  let (answer, store) := ObjectStore.perform s.store client s.clock.now listing request
  let s := fire { s with store } (.after request.kind)
  (answer, { s with calls := s.calls ++ [⟨listing, request, answer⟩] })

/-- Looks at a pause of the call in progress. -/
def look (s : Session σ Client) (nap : Nap) (isOver : Bool) : Nap × Session σ Client :=
  let (nap, channel) := nap.look s.channel isOver (s.order.headD false)
  (nap, { s with channel })

/-- Pauses. The clock moves when the pause is looked at for the first time, and the time is up when it
is looked at again; what happens during a pause happens in between. -/
def sleep (s : Session σ Client) (duration : Duration) : PauseEnd × Session σ Client :=
  let (nap, channel) := Nap.begin s.channel
  let (nap, s) := { s with channel }.look nap false
  let (nap, s) := ((s.advance duration).fire .pausing).look nap true
  (nap.ending, { s with order := s.order.tail })

/-- Runs a call of a lock to its end; `fuel` bounds how often it may stop. -/
def run : (fuel : Nat) → Session σ Client → Client → Lock.Turn →
    Option Outcome × Lock × Session σ Client
  | _, s, _, (l, .done outcome) => (some outcome, l, s)
  | 0, s, _, (l, _) => (none, l, s)
  | fuel + 1, s, client, (l, .pause duration rest) =>
    let (ended, s) := s.sleep duration
    run fuel s client (l.wake rest ended s.reading)
  | fuel + 1, s, client, (l, .request phase) =>
    let (answer, s) := s.call client l.listing phase.request
    run fuel s client (l.resume phase answer s.reading)

/-- Takes a lock; `fuel` bounds how often the call may stop. -/
def acquire (s : Session σ Client) (fuel : Nat) (client : Client) (l : Lock) (limit : WaitLimit)
    (channel : Option CancelChannel) : Option Outcome × Lock × Session σ Client :=
  let s := { s with channel, calls := [] }
  let (outcome, l, s) := run fuel s client (l.acquire limit s.reading)
  (outcome, l, { s with channel := none })

/-- Gives a lock back. -/
def release (s : Session σ Client) (fuel : Nat) (client : Client) (l : Lock) :
    Option Outcome × Lock × Session σ Client :=
  run fuel { s with calls := [] } client l.release

/-- Makes a lock for a prefix and takes it. There is no lock if the wait ran out, and no answer if the
call has not ended. -/
def lockPrefix (s : Session σ Client) (fuel : Nat) (p : Provider Client) (lockPrefix : String)
    (limit : WaitLimit) :
    Option (Except LockError (Option Lock)) × Provider Client × Session σ Client :=
  match p.createLock lockPrefix with
  | (.error e, p) => (some (.error e), p, { s with calls := [] })
  | (.ok l, p) =>
    match s.acquire fuel p.store l limit none with
    | (none, _, s) => (none, p, s)
    | (some .acquired, l, s) => (some (.ok (some l)), p, s)
    | (some (.failed e), _, s) => (some (.error e), p, s)
    | (some .gaveUp, _, s) => (some (.ok none), p, s)
    | (some .released, _, s) => (some (.ok none), p, s)

end Session

end StoreLock
