import StoreLock.Proofs.Lock.Advance
import StoreLock.Proofs.Store.Objects

/-!
# Contests

Any number of members share one store and one clock. A step is a single store call of one member, or
something else that happens to one member, or something the rest of the world does: time passes,
another program creates or deletes objects of its own, the store begins or ceases to fail. Between
two steps everything may happen, so a run is any interleaving of the members' calls.

The clock never goes back. What a wall clock shows is left open at every reading, and so is whether
a caller wants its call to end.
-/

namespace StoreLock

/-- The answer to a request that fails before it reaches the store. -/
def Request.refusal (e : StoreError) : (request : Request) → request.Answer
  | .list => .error e
  | .create _ _ => .error e
  | .delete _ => .error e

/-- Whether an input belongs to a call that takes the lock without a limit, is seen through and meets
no failure. -/
def Input.IsPlain : Input → Prop
  | .acquire limit r => limit = none ∧ r.cancelled = false
  | .release _ => False
  | .answer phase given r => (∀ e, given ≠ phase.request.refusal e) ∧ r.cancelled = false
  | .wake ended r => ended = .elapsed ∧ r.cancelled = false
  | .drop _ => False

/-- Locks that share one store and one clock. -/
structure Contest (ι : Type) where
  /-- The shared clock. -/
  now : Instant
  /-- The shared store. -/
  store : MemoryStore
  /-- Through which client of the store a member makes its calls. -/
  client : ι → Nat
  /-- The members. -/
  members : ι → Member

namespace Contest

variable {ι : Type}

/-- Whether a name is that of an entry of this member. -/
def Owns (s : Contest ι) (i : ι) (name : String) : Prop :=
  ∃ e, Entry.read name = .ok e ∧ (s.members i).lock.Signs e

/-- Whether a member holds its lock with an entry that was created no longer than `timeout` ago. -/
def HoldsFresh (s : Contest ι) (timeout : Duration) (i : ι) : Prop :=
  (s.members i).lock.state = .held ∧
    ∃ a, (s.members i).lock.attempt = some a ∧ s.now - a.createdAt ≤ timeout

/-- A contest before any call: new locks of one prefix and one timeout, with accepted owners that
differ from each other, on a store that holds no entry of theirs. -/
structure Opening (lockPrefix : String) (timeout : Duration) (s : Contest ι) : Prop where
  member : ∀ i, ∃ owner timings strategy lock,
    OwnerId.accepts owner.text = true ∧ timings.timeout = timeout ∧
      Lock.create lockPrefix owner timings strategy = .ok lock ∧ s.members i = { lock }
  owner : ∀ i j, (s.members i).lock.owner = (s.members j).lock.owner → i = j
  store : ∀ i name, s.store.OnRecord name → ¬ s.Owns i name

/-- What happens in one step. -/
inductive Event (ι : Type)
  /-- Time passes. -/
  | tick (duration : Duration)
  /-- Something happens to a member. -/
  | act (i : ι) (input : Input)
  /-- Another program creates or deletes an object. -/
  | other
  /-- The store begins or ceases to fail. -/
  | fault

variable [DecidableEq ι]

/-- Puts a member in the place of the one it has become of. -/
def put (s : Contest ι) (i : ι) (m : Member) : Contest ι :=
  { s with members := Function.update s.members i m }

/-- One step. A store call of a member takes effect and is answered at one time, or fails without
reaching the store; other programs leave the members' entries alone. -/
inductive Step (s : Contest ι) : Event ι → Contest ι → Prop where
  | tick {d} :
    Step s (.tick d) { s with now := s.now + d }
  | act {i input m} :
    ¬ input.IsAnswer →
    input.reading.now = s.now →
    (s.members i).Step input m →
    Step s (.act i input) (s.put i m)
  | serve {i phase answer store r m} :
    ObjectStore.perform s.store (s.client i) s.now (s.members i).lock.listing phase.request =
      (answer, store) →
    r.now = s.now →
    (s.members i).Step (.answer phase answer r) m →
    Step s (.act i (.answer phase answer r)) ({ s with store }.put i m)
  | fail {i phase e r m} :
    r.now = s.now →
    (s.members i).Step (.answer phase (phase.request.refusal e) r) m →
    Step s (.act i (.answer phase (phase.request.refusal e) r)) (s.put i m)
  | create {client name contents answer store} :
    (∀ i, ¬ s.Owns i name) →
    s.store.create client s.now name contents = (answer, store) →
    Step s .other { s with store }
  | delete {client name answer store} :
    (∀ i, ¬ s.Owns i name) →
    s.store.delete client s.now name = (answer, store) →
    Step s .other { s with store }
  | setUnavailable {value} :
    Step s .fault { s with store := s.store.setUnavailable value }
  | failNext {kind count} :
    Step s .fault { s with store := s.store.failNext kind count }

/-- What can be reached by steps that are allowed where they are taken. -/
inductive Reaches (allowed : Contest ι → Event ι → Prop) (s : Contest ι) : Contest ι → Prop where
  | refl : Reaches allowed s s
  | step {s' e s''} :
    Reaches allowed s s' →
    allowed s' e →
    Step s' e s'' →
    Reaches allowed s s''

variable {allowed allowed' : Contest ι → Event ι → Prop} {s s' : Contest ι}

/-- What holds at the start and is preserved by every allowed step holds wherever a run leads. -/
theorem Reaches.preserves {P : Contest ι → Prop} (run : Reaches allowed s s') (start : P s)
    (step : ∀ s e s', P s → allowed s e → Step s e s' → P s') : P s' := by
  induction run with
  | refl => exact start
  | step _ ha st ih => exact step _ _ _ ih ha st

/-- What holds throughout a run may be relied on at each of its steps. -/
theorem Reaches.refine {P : Contest ι → Prop} (run : Reaches allowed s s') (start : P s)
    (step : ∀ s e s', P s → allowed s e → Step s e s' → P s' ∧ allowed' s e) :
    Reaches allowed' s s' := by
  have ih : P s' ∧ Reaches allowed' s s' := by
    induction run with
    | refl => exact ⟨start, .refl⟩
    | step _ ha st ih =>
      obtain ⟨hp, run⟩ := ih
      obtain ⟨hp', ha'⟩ := step _ _ _ hp ha st
      exact ⟨hp', .step run ha' st⟩
  exact ih.2

/-- A run may go on. -/
theorem Reaches.trans {s'' : Contest ι} (run : Reaches allowed s s')
    (run' : Reaches allowed s' s'') : Reaches allowed s s'' := by
  induction run' with
  | refl => exact run
  | step _ ha st ih => exact .step ih ha st

lemma Reaches.mono (run : Reaches allowed s s') (h : ∀ s e, allowed s e → allowed' s e) :
    Reaches allowed' s s' := by
  induction run with
  | refl => exact .refl
  | step _ ha st ih => exact .step ih (h _ _ ha) st

@[simp] lemma put_members_self (i : ι) (m : Member) : (s.put i m).members i = m :=
  Function.update_self ..

lemma put_members_ne {i j : ι} (m : Member) (h : j ≠ i) :
    (s.put i m).members j = s.members j :=
  Function.update_of_ne h ..

/-! ## Conditions on a run -/

/-- No entry is created whose sequence is the largest. -/
def Unsaturated (_ : Contest ι) (e : Event ι) : Prop :=
  ∀ i input entry, e = .act i input → input.created? = some entry →
    entry.sequence ≠ Sequencer.most

/-- Once a member has listed the queue to create an entry behind it, nothing happens before its
request to create that entry is answered. -/
def Indivisible (s : Contest ι) (e : Event ι) : Prop :=
  ∀ i w entry contents, (s.members i).progress = some (.request (.creating w entry contents)) →
    ∃ answer r, e = .act i (.answer (.creating w entry contents) answer r)

/-- An entry is created no later than `gap` after the queue was listed for it. -/
def Prompt (gap : Duration) (s : Contest ι) (e : Event ι) : Prop :=
  ∀ i input entry, e = .act i input → input.created? = some entry →
    s.now ≤ (s.members i).since + gap

/-- A settling pause, which begins when the entry is created, is not over before the settling time has
passed. -/
def Settling (s : Contest ι) (e : Event ι) : Prop :=
  ∀ i d rest r a, e = .act i (.wake .elapsed r) →
    (s.members i).progress = some (.pause d rest) → (s.members i).lock.attempt = some a →
    (s.members i).since = a.createdAt →
    a.createdAt + (s.members i).lock.timings.settling ≤ s.now

/-- A pause that elapses has lasted as long as it was meant to. -/
def Punctual (s : Contest ι) (e : Event ι) : Prop :=
  ∀ i d rest r, e = .act i (.wake .elapsed r) → (s.members i).progress = some (.pause d rest) →
    (s.members i).since + d ≤ s.now

/-- The members take their locks without a limit, no call of theirs fails, no time passes between a
listing and the creation behind it, and no sequence is the largest. -/
structure Plain (s : Contest ι) (e : Event ι) : Prop where
  plain : ∀ i input, e = .act i input → input.IsPlain
  indivisible : Indivisible s e
  unsaturated : Unsaturated s e
  punctual : Punctual s e

end Contest

end StoreLock
