import StoreLock.Lock.Basic

/-!
# Providers

A provider hands out locks that share a store and timings. Each lock gets an owner of its own, the
provider's token with the number of the lock, so two locks of one process compete like locks of two.
-/

namespace StoreLock

/-- What a provider is made from. -/
structure ProviderSettings (Client : Type) where
  /-- The store the locks live in. -/
  store : Option Client := none
  /-- The timings of every lock; nothing stands in for them. -/
  timings : Option Timings := none
  /-- The instance token, where a random one will not do. -/
  owner : Option OwnerId := none
  /-- What sequences start from. -/
  strategy : Strategy := .standard

/-- A maker of locks. -/
structure Provider (Client : Type) where
  /-- The store the locks live in. -/
  store : Client
  /-- The timings of every lock. -/
  timings : Timings
  /-- The token that owners are derived from. -/
  owner : OwnerId
  /-- What sequences start from. -/
  strategy : Strategy
  /-- The number of the next lock. -/
  nextIndex : UInt64 := 0

variable {Client : Type}

namespace ProviderSettings

/-- The provider with these settings; `random` is the token where none is given. -/
def build (s : ProviderSettings Client) (random : OwnerId) :
    Except LockError (Provider Client) :=
  match s.store, s.timings with
  | none, _ => .error (.invalidConfig "store not specified")
  | some _, none => .error (.invalidConfig "lock options not specified")
  | some store, some timings =>
    timings.check.map fun _ =>
      { store, timings, owner := s.owner.getD random, strategy := s.strategy }

end ProviderSettings

namespace Provider

/-- Makes a lock for a prefix. A refused prefix uses up no number. -/
def createLock (p : Provider Client) (lockPrefix : String) :
    Except LockError Lock × Provider Client :=
  match checkPrefix lockPrefix with
  | .error e => (.error e, p)
  | .ok () =>
    (Lock.create lockPrefix (p.owner.child p.nextIndex) p.timings p.strategy,
      { p with nextIndex := p.nextIndex + 1 })

end Provider

end StoreLock
