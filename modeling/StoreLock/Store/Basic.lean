import StoreLock.Lock.Call

/-!
# Object stores

What a lock needs of a store: to create an object, to delete one and to list names. A store is used
through clients, of which it may tell one from another, and it may look at the time.
-/

namespace StoreLock

/-- The kinds of store calls. -/
inductive CallKind
  | create
  | delete
  | list
deriving DecidableEq, Repr

/-- One value for each kind of call. -/
structure PerCall (α : Type) where
  create : α
  delete : α
  list : α
deriving DecidableEq, Repr

namespace PerCall

variable {α : Type}

/-- The same value for every kind. -/
def all (a : α) : PerCall α :=
  ⟨a, a, a⟩

/-- The value for one kind. -/
def get (p : PerCall α) : CallKind → α
  | .create => p.create
  | .delete => p.delete
  | .list => p.list

/-- Changes the value for one kind. -/
def modify (p : PerCall α) (kind : CallKind) (f : α → α) : PerCall α :=
  match kind with
  | .create => { p with create := f p.create }
  | .delete => { p with delete := f p.delete }
  | .list => { p with list := f p.list }

end PerCall

/-- The kind of call that answers a request. -/
def Request.kind : Request → CallKind
  | .list => .list
  | .create _ _ => .create
  | .delete _ => .delete

/-- A store that is used through clients. Its calls take the time and give back the store. -/
class ObjectStore (σ : Type) (Client : outParam Type) where
  /-- A short name for this kind of store. -/
  label : σ → String
  /-- Creates an object, in place of any other with its name. -/
  create : σ → Client → Instant → (name : String) → ByteArray → Except StoreError Unit × σ
  /-- Deletes an object; a missing one counts as deleted. -/
  delete : σ → Client → Instant → (name : String) → Except StoreError Unit × σ
  /-- Lists the names of the objects that start with a text. -/
  list : σ → Client → Instant → (start : String) → Except StoreError (List String) × σ

namespace ObjectStore

variable {σ Client : Type} [ObjectStore σ Client]

/-- Carries out a request of a lock with this listing prefix. -/
def perform (s : σ) (client : Client) (now : Instant) (listing : String) :
    (request : Request) → request.Answer × σ
  | .list => list s client now listing
  | .create name contents => create s client now name contents
  | .delete name => delete s client now name

end ObjectStore

end StoreLock
