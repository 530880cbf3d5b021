import StoreLock.Store.Basic

/-!
# The store in memory

A store whose clients see their own changes at once and each other's only after a lag. A deleted
object stays on record until its deletion has reached everyone. Calls can be made to fail, and they
are counted.
-/

namespace StoreLock

/-- One object of the store. -/
structure ObjectRecord where
  /-- What the object holds. -/
  contents : ByteArray
  /-- The client that wrote it. -/
  writer : Nat
  /-- When it was written. -/
  createdAt : Instant
  /-- The client that deleted it, and when. -/
  deleted : Option (Nat × Instant) := none

/-- A store in memory. -/
structure MemoryStore where
  /-- The objects by name, in the order of their names. -/
  objects : List (String × ObjectRecord) := []
  /-- How long a change takes to reach other clients. -/
  lag : Duration := 0
  /-- How many clients have been opened. -/
  clients : Nat := 1
  /-- Whether every call fails. -/
  isUnavailable : Bool := false
  /-- How many of the next calls of each kind fail. -/
  failures : PerCall Nat := .all 0
  /-- How many calls of each kind have been made. -/
  calls : PerCall Nat := .all 0

namespace MemoryStore

/-- The client that every store begins with. -/
def mainClient : Nat := 0

/-- Opens another client. -/
def openClient (s : MemoryStore) : Nat × MemoryStore :=
  (s.clients, { s with clients := s.clients + 1 })

/-- Makes every call fail, or no longer. -/
def setUnavailable (s : MemoryStore) (value : Bool) : MemoryStore :=
  { s with isUnavailable := value }

/-- Makes the next `count` calls of a kind fail, beside those that are to fail already. -/
def failNext (s : MemoryStore) (kind : CallKind) (count : Nat) : MemoryStore :=
  { s with failures := s.failures.modify kind (· + count) }

/-- The record with this name. -/
def find? (s : MemoryStore) (name : String) : Option ObjectRecord :=
  s.objects.lookup name

/-- The names of the objects that exist, whoever can see them. -/
def objectNames (s : MemoryStore) : List String :=
  (s.objects.filter fun o => o.2.deleted.isNone).map (·.1)

/-- What an object that exists holds. -/
def contents? (s : MemoryStore) (name : String) : Option ByteArray :=
  ((s.find? name).filter (·.deleted.isNone)).map (·.contents)

/-- What an injected failure is called. -/
def failureText : CallKind → String
  | .create => "injected Create failure"
  | .delete => "injected Delete failure"
  | .list => "injected List failure"

/-- Counts a call and tells whether it fails. -/
def begin (s : MemoryStore) (kind : CallKind) : Option StoreError × MemoryStore :=
  let s := { s with calls := s.calls.modify kind (· + 1) }
  if s.isUnavailable then (some (.unavailable "memory store is offline"), s)
  else if 0 < s.failures.get kind then
    (some (.unavailable (failureText kind)), { s with failures := s.failures.modify kind (· - 1) })
  else (none, s)

/-- Whether a change made at `time` has reached everyone. -/
def propagated (lag : Duration) (time now : Instant) : Bool :=
  decide (lag ≤ now - time)

/-- Whether a client sees an object. -/
def isVisible (lag : Duration) (client : Nat) (now : Instant) (o : ObjectRecord) : Bool :=
  (o.writer == client || propagated lag o.createdAt now) &&
    match o.deleted with
    | none => true
    | some (deleter, time) => !(deleter == client || propagated lag time now)

/-- Whether an object has to stay on record. -/
def isKept (lag : Duration) (now : Instant) (o : ObjectRecord) : Bool :=
  match o.deleted with
  | none => true
  | some (_, time) => !propagated lag time now

/-- Puts a record in its place, in place of any other with its name. -/
def insert (objects : List (String × ObjectRecord)) (name : String) (o : ObjectRecord) :
    List (String × ObjectRecord) :=
  objects.filter (fun p => decide (p.1 < name)) ++
    (name, o) :: objects.filter (fun p => decide (name < p.1))

/-- Marks an object as deleted, unless it is already. -/
def markDeleted (client : Nat) (now : Instant) (o : ObjectRecord) : ObjectRecord :=
  match o.deleted with
  | none => { o with deleted := some (client, now) }
  | some _ => o

/-- Creates an object. -/
def create (s : MemoryStore) (client : Nat) (now : Instant) (name : String)
    (contents : ByteArray) : Except StoreError Unit × MemoryStore :=
  match s.begin .create with
  | (some e, s) => (.error e, s)
  | (none, s) =>
    let o : ObjectRecord := { contents, writer := client, createdAt := now }
    (.ok (), { s with objects := insert s.objects name o })

/-- Deletes an object. -/
def delete (s : MemoryStore) (client : Nat) (now : Instant) (name : String) :
    Except StoreError Unit × MemoryStore :=
  match s.begin .delete with
  | (some e, s) => (.error e, s)
  | (none, s) =>
    (.ok (), { s with objects := s.objects.map fun p =>
      if p.1 = name then (p.1, markDeleted client now p.2) else p })

/-- Lists what a client sees, and drops what nobody sees any more. -/
def list (s : MemoryStore) (client : Nat) (now : Instant) (start : String) :
    Except StoreError (List String) × MemoryStore :=
  match s.begin .list with
  | (some e, s) => (.error e, s)
  | (none, s) =>
    let objects := s.objects.filter fun p => isKept s.lag now p.2
    let seen := objects.filter fun p => Text.startsWith p.1 start && isVisible s.lag client now p.2
    (.ok (seen.map (·.1)), { s with objects })

instance : ObjectStore MemoryStore Nat where
  label _ := "memory"
  create := create
  delete := delete
  list := list

end MemoryStore

end StoreLock
