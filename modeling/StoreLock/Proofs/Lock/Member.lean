import StoreLock.Proofs.Lock.Observe

/-!
# Members

A member is a lock together with how far its latest call has come. The world drives it by inputs: a
call begins, the store answers, a pause ends, a call is dropped. `Member.Step` says what each input
does; no input is tied to a store or a scheduler here, so a run of steps is a run of one lock under
any answers, any readings of the clock and any cancellations.
-/

namespace StoreLock

namespace Lock

/-- The names that a call in this phase is deleting or has still to delete. -/
def Phase.doomed : Phase → List String
  | .clearing _ name => [name]
  | .seeding _ => []
  | .creating _ _ _ => []
  | .ranking _ => []
  | .reclaiming _ _ name rest => name :: rest
  | .discarding _ name => [name]
  | .abandoning name _ => [name]
  | .releasing name => [name]

/-- Whether an entry carries this lock's prefix and owner. -/
def Signs (l : Lock) (e : Entry) : Prop :=
  e.lockPrefix = l.lockPrefix ∧ e.owner = l.owner

end Lock

/-- A lock and how far its latest call has come. -/
structure Member where
  /-- The lock. -/
  lock : Lock
  /-- How far its call has come; nothing if there was none, or if it was dropped. -/
  progress : Option Lock.Progress := none
  /-- When the call came this far. -/
  since : Instant := 0

/-- Something that happens to a member, with what the lock reads at that time. -/
inductive Input
  /-- A call begins that takes the lock. -/
  | acquire (limit : WaitLimit) (r : Reading)
  /-- A call begins that gives the lock back. -/
  | release (r : Reading)
  /-- The store answers. -/
  | answer (phase : Lock.Phase) (answer : phase.request.Answer) (r : Reading)
  /-- A pause ends. -/
  | wake (ended : PauseEnd) (r : Reading)
  /-- The call in progress is dropped as it stands. -/
  | drop (r : Reading)

/-- What the lock reads when an input happens. -/
def Input.reading : Input → Reading
  | .acquire _ r => r
  | .release r => r
  | .answer _ _ r => r
  | .wake _ r => r
  | .drop r => r

namespace Input

/-- Whether an input is the answer of a store. -/
def IsAnswer : Input → Prop
  | .answer _ _ _ => True
  | _ => False

/-- The listing that an input brings. -/
def listing? : Input → Option (List String)
  | .answer (.seeding _) (.ok listed) _ => some listed
  | .answer (.ranking _) (.ok listed) _ => some listed
  | _ => none

/-- The entry that an input tells was created. -/
def created? : Input → Option Entry
  | .answer (.creating _ entry _) (.ok ()) _ => some entry
  | _ => none

end Input

namespace Member

/-- The member whose lock has come this far at `now`. -/
def ofTurn (t : Lock.Turn) (now : Instant) : Member :=
  ⟨t.1, some t.2, now⟩

/-- Whether no call is in progress. -/
def IsResting (m : Member) : Prop :=
  match m.progress with
  | none => True
  | some (.done _) => True
  | some (.request _) => False
  | some (.pause _ _) => False

/-- The entry whose object is being created. -/
def pending? (m : Member) : Option Entry :=
  match m.progress with
  | some (.request (.creating _ entry _)) => some entry
  | _ => none

/-- The names the call in progress is deleting or has still to delete. -/
def doomed (m : Member) : List String :=
  match m.progress with
  | some (.request phase) => phase.doomed
  | _ => []

/-- Whether the own entry was ranked first and only stale entries are left to be deleted. -/
def IsFirst (m : Member) : Prop :=
  ∃ w name rest, m.progress = some (.request (.reclaiming w .first name rest))

/-- Whether the lock is held with this attempt, or will be once the stale entries are deleted. -/
def Chooses (m : Member) (a : Attempt) : Prop :=
  m.lock.attempt = some a ∧ (m.lock.state = .held ∨ m.IsFirst)

/-- Whether the call in progress follows where its own entry stands. -/
def IsQueuing (m : Member) : Prop :=
  match m.progress with
  | some (.pause _ _) => True
  | some (.request (.ranking _)) => True
  | some (.request (.reclaiming _ _ _ _)) => True
  | _ => False

/-- Whether the call in progress is listing the queue to rank its own entry. -/
def IsRanking (m : Member) : Prop :=
  ∃ w, m.progress = some (.request (.ranking w))

/-- What holds of a member at every time: only a lock whose call has ended is held, and a call that
follows where its own entry stands has one. -/
structure Coherent (m : Member) : Prop where
  resting : m.lock.state = .held → m.IsResting
  attempt : m.IsQueuing → ∃ a, m.lock.attempt = some a

/-- What an input does to a member. A call begins only where none is in progress, and only the
request that is open can be answered. -/
inductive Step (m : Member) : Input → Member → Prop where
  | acquire {limit r} :
    m.IsResting →
    Step m (.acquire limit r) (ofTurn (m.lock.acquire limit r) r.now)
  | release {r} :
    m.IsResting →
    Step m (.release r) (ofTurn m.lock.release r.now)
  | answer {phase answer r} :
    m.progress = some (.request phase) →
    Step m (.answer phase answer r) (ofTurn (m.lock.resume phase answer r) r.now)
  | wake {d rest ended r} :
    m.progress = some (.pause d rest) →
    Step m (.wake ended r) (ofTurn (m.lock.wake rest ended r) r.now)
  | drop {r} :
    Step m (.drop r) { m with progress := none, since := r.now }

/-- A run from a member, with its inputs, the latest first. -/
inductive Run (m : Member) : List Input → Member → Prop where
  | nil : Run m [] m
  | cons {inputs input m' m''} :
    Run m inputs m' →
    Step m' input m'' →
    Run m (input :: inputs) m''

end Member

end StoreLock
