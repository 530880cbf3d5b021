import StoreLock.Proofs.Lock.History

/-!
# How calls end

A call that takes the lock may end in many places, so what it owes is stated of every place that it can come to
(`Lock.Settles`): the lock is idle once the call has ended without success, and held by an entry once it has
succeeded. One lemma for each function of the machine says that its turns are of that kind. A call that goes on
stays of that kind (`Member.Step.settles`), one that waits for its store goes on with the answer
(`Member.Step.of_request`), and one that has ended does not go on (`Member.Step.not_goesOn`).
-/

namespace StoreLock

namespace Lock

/-- How a lock can stand in a call that takes it: held by an entry if the call has succeeded, and idle if it has
ended in another way. -/
def Settles : Turn → Prop
  | (l, .done o) => (o = .acquired → l.state = .held ∧ l.attempt ≠ none) ∧ (o ≠ .acquired → l.state = .idle)
  | (_, .request (.abandoning _ o)) => o ≠ .acquired
  | (_, .request (.releasing _)) => False
  | _ => True

variable {l : Lock} {limit : WaitLimit} {w : Window} {r : Reading} {d : Duration} {st : Standing}
  {o : Outcome} {names listed : List String}

lemma abandon_settles (ho : o ≠ .acquired) : Settles (l.abandon o) := by
  rw [abandon]
  split
  case h_1 => exact ⟨fun h => absurd h ho, fun _ => rfl⟩
  case h_2 => exact ho

lemma pause_settles : Settles (l.pause w d r) := by
  rw [pause]
  split
  case isTrue => exact abandon_settles (by simp)
  case isFalse => trivial

lemma start_settles : Settles (l.start limit r) := by
  rw [start]
  split
  case isTrue => exact abandon_settles (by simp)
  case isFalse => trivial

lemma acquire_settles (hs : l.state ≠ .held) : Settles (l.acquire limit r) := by
  rw [acquire]
  split
  case h_1 hheld => exact absurd hheld hs
  case h_2 => exact start_settles
  case h_3 =>
    split
    case h_1 => exact start_settles
    case h_2 => trivial
  case h_4 =>
    split
    case h_1 => exact start_settles
    case h_2 => trivial

lemma conclude_settles (ha : st = .first → l.attempt ≠ none) : Settles (l.conclude w st r) := by
  cases st with
  | first => exact ⟨fun _ => ⟨rfl, ha rfl⟩, fun h => absurd rfl h⟩
  | waiting =>
    rw [conclude]
    split
    case isTrue => exact abandon_settles (by simp)
    case isFalse => exact pause_settles
  | reclaimed =>
    rw [conclude]
    split
    case h_1 => trivial
    case h_2 => trivial

lemma reclaim_settles (ha : st = .first → l.attempt ≠ none) : Settles (l.reclaim w st names r) := by
  cases names with
  | nil => exact conclude_settles ha
  | cons name rest => trivial

lemma judge_settles : Settles (l.judge w listed r) := by
  cases ha : l.attempt with
  | none =>
    rw [judge, ha]
    exact conclude_settles (by simp)
  | some a =>
    rw [judge, ha]
    apply reclaim_settles
    intro _
    rw [observe_attempt, ha]
    exact Option.some_ne_none _

lemma wake_settles {rest : Rest} {ended : PauseEnd} : Settles (l.wake rest ended r) := by
  cases ended with
  | cancelled => exact abandon_settles (by simp)
  | elapsed =>
    rw [wake]
    split
    case h_1 => exact conclude_settles (by simp)
    case h_2 => trivial

lemma Settles.resume {phase : Phase} {answer : phase.request.Answer}
    (h : Settles (l, .request phase))
    (ha : ∀ w st name rest, phase = .reclaiming w st name rest → l.attempt ≠ none) :
    Settles (l.resume phase answer r) := by
  cases phase with
  | clearing limit name => exact start_settles
  | seeding w =>
    cases answer with
    | ok listed => trivial
    | error e => exact abandon_settles (by simp)
  | creating w entry contents =>
    cases answer with
    | ok u => exact pause_settles
    | error e => exact abandon_settles (by simp)
  | ranking w =>
    cases answer with
    | ok listed => exact judge_settles
    | error e => exact abandon_settles (by simp)
  | reclaiming w st name rest => exact reclaim_settles fun _ => ha w st name rest rfl
  | discarding w name => trivial
  | abandoning name o => exact ⟨fun ho => absurd ho h, fun _ => rfl⟩
  | releasing name => exact h.elim

end Lock

namespace Member

variable {m m' : Member} {input : Input}

/-- Whether a member stands as it can in a call that takes the lock. -/
def Settles (m : Member) : Prop :=
  ∃ p, m.progress = some p ∧ Lock.Settles (m.lock, p)

lemma Step.settles (st : Step m input m') (hon : input.GoesOn) (hm : m.Coherent) (h : m.Settles) :
    m'.Settles := by
  cases st with
  | acquire => exact hon.elim
  | release => exact hon.elim
  | drop => exact hon.elim
  | wake => exact ⟨_, rfl, Lock.wake_settles⟩
  | answer hp =>
    obtain ⟨p, hp', h⟩ := h
    cases hp.symm.trans hp'
    refine ⟨_, rfl, h.resume ?_⟩
    rintro w st name rest rfl
    have hq : m.IsQueuing := by
      rw [IsQueuing, hp]
      trivial
    obtain ⟨a, ha⟩ := hm.attempt hq
    rw [ha]
    exact Option.some_ne_none _

lemma Step.of_acquire {limit : WaitLimit} {r : Reading} (st : Step m (.acquire limit r) m') :
    m' = ofTurn (m.lock.acquire limit r) r.now := by
  cases st
  rfl

lemma Step.of_release {r : Reading} (st : Step m (.release r) m') : m' = ofTurn m.lock.release r.now := by
  cases st
  rfl

lemma Step.of_answer {phase : Lock.Phase} {answer : phase.request.Answer} {r : Reading}
    (st : Step m (.answer phase answer r) m') : m' = ofTurn (m.lock.resume phase answer r) r.now := by
  cases st
  rfl

/-- A call that waits for its store goes on with the answer, and with nothing else. -/
lemma Step.of_request {phase : Lock.Phase} (st : Step m input m') (hon : input.GoesOn)
    (hp : m.progress = some (.request phase)) : ∃ (answer : phase.request.Answer) (r : Reading),
      input = .answer phase answer r ∧ m' = ofTurn (m.lock.resume phase answer r) r.now := by
  cases st with
  | acquire => exact hon.elim
  | release => exact hon.elim
  | drop => exact hon.elim
  | wake hp' => cases hp.symm.trans hp'
  | @answer phase' answer r hp' =>
    cases hp.symm.trans hp'
    exact ⟨answer, r, rfl, rfl⟩

/-- Where no call is in progress, none goes on. -/
lemma Step.not_goesOn (st : Step m input m') (hrest : m.IsResting) : ¬ input.GoesOn := by
  cases st with
  | acquire => exact id
  | release => exact id
  | drop => exact id
  | answer hp =>
    rw [IsResting, hp] at hrest
    exact hrest.elim
  | wake hp =>
    rw [IsResting, hp] at hrest
    exact hrest.elim

end Member

end StoreLock
