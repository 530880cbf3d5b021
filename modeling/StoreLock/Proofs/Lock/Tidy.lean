import StoreLock.Proofs.Lock.Attempt

/-!
# When a lock has no entry

A lock has no attempt while it is idle, while it makes a new entry, and while it deletes its own
(`Tidy`): every way out of a call takes the attempt from the lock before the lock is idle, and a new
entry is made only when there is none. One lemma for each function of the machine says so, under the
condition that a call which tries to take the lock is one of a lock that is not idle.
-/

namespace StoreLock.Member

/-- Whether the call in progress makes a new entry. -/
def IsDrawing (m : Member) : Prop :=
  match m.progress with
  | some (.request (.seeding _)) => True
  | some (.request (.creating _ _ _)) => True
  | _ => False

/-- Whether the call in progress is one that may yet take the lock. -/
def IsTrying (m : Member) : Prop :=
  match m.progress with
  | some (.pause _ _) => True
  | some (.request (.seeding _)) => True
  | some (.request (.creating _ _ _)) => True
  | some (.request (.ranking _)) => True
  | some (.request (.reclaiming _ _ _ _)) => True
  | some (.request (.discarding _ _)) => True
  | _ => False

/-- A member has no attempt where it is not to have an entry. -/
structure Tidy (m : Member) : Prop where
  trying : m.IsTrying → m.lock.state ≠ .idle
  idle : m.lock.state = .idle → m.lock.attempt = none
  drawing : m.IsDrawing → m.lock.attempt = none
  leaving : ∀ n, m.leaving? = some n → m.lock.attempt = none

variable {l : Lock} {m m' : Member} {input : Input} {now : Instant}

/-- A member without an attempt. -/
lemma tidy_of_attempt (ha : m.lock.attempt = none) (ht : m.IsTrying → m.lock.state ≠ .idle) :
    m.Tidy :=
  ⟨ht, fun _ => ha, fun _ => ha, fun _ _ => ha⟩

/-- A member that has its entry and a lock that is not idle. -/
lemma tidy_of_state (hs : m.lock.state ≠ .idle) (hd : ¬ m.IsDrawing) (hl : m.leaving? = none) :
    m.Tidy := by
  refine ⟨fun _ => hs, fun h => absurd h hs, fun h => absurd h hd, ?_⟩
  intro n hn
  rw [hl] at hn
  cases hn

lemma withoutAttempt_attempt (l : Lock) : l.withoutAttempt.attempt = none := by
  rw [Lock.withoutAttempt]
  split
  case h_1 ha => exact ha
  case h_2 => rfl

lemma withoutAttempt_state (l : Lock) : l.withoutAttempt.state = l.state := by
  rw [Lock.withoutAttempt]
  split <;> rfl

/-- A call that gives up leaves no attempt, whatever the lock was before. -/
lemma abandon_tidy (l : Lock) (o : Outcome) (now : Instant) : (ofTurn (l.abandon o) now).Tidy := by
  rw [Lock.abandon]
  split
  case h_1 ha => exact tidy_of_attempt ha False.elim
  case h_2 => exact tidy_of_attempt (withoutAttempt_attempt l) False.elim

lemma pause_tidy (hs : l.state ≠ .idle) (w : Window) (d : Duration) (r : Reading) (now : Instant) :
    (ofTurn (l.pause w d r) now).Tidy := by
  rw [Lock.pause]
  split
  case isTrue => exact abandon_tidy l _ now
  case isFalse => exact tidy_of_state hs id rfl

lemma start_tidy (ha : l.attempt = none) (limit : WaitLimit) (r : Reading) (now : Instant) :
    (ofTurn (l.start limit r) now).Tidy := by
  rw [Lock.start]
  split
  case isTrue => exact abandon_tidy _ _ now
  case isFalse =>
    refine tidy_of_attempt ha fun _ => ?_
    rintro ⟨⟩

lemma acquire_tidy (hidle : l.state = .idle → l.attempt = none) (limit : WaitLimit) (r : Reading)
    (now : Instant) : (ofTurn (l.acquire limit r) now).Tidy := by
  rw [Lock.acquire]
  split
  case h_1 hs =>
    refine tidy_of_state ?_ id rfl
    change l.state ≠ .idle
    rw [hs]
    decide
  case h_2 hs => exact start_tidy (hidle hs) limit r now
  case h_3 =>
    split
    case h_1 ha => exact start_tidy ha limit r now
    case h_2 => exact tidy_of_attempt (withoutAttempt_attempt l) False.elim
  case h_4 =>
    split
    case h_1 ha => exact start_tidy ha limit r now
    case h_2 => exact tidy_of_attempt (withoutAttempt_attempt l) False.elim

lemma release_tidy (hidle : l.state = .idle → l.attempt = none) (now : Instant) :
    (ofTurn l.release now).Tidy := by
  rw [Lock.release]
  split
  case isTrue =>
    split
    case h_1 ha => exact tidy_of_attempt ha False.elim
    case h_2 => exact tidy_of_attempt (withoutAttempt_attempt l) False.elim
  case isFalse =>
    refine ⟨False.elim, hidle, False.elim, ?_⟩
    rintro n ⟨⟩

lemma conclude_tidy (hs : l.state ≠ .idle) (w : Window) (st : Lock.Standing) (r : Reading)
    (now : Instant) : (ofTurn (l.conclude w st r) now).Tidy := by
  cases st with
  | first =>
    refine tidy_of_state ?_ id rfl
    rintro ⟨⟩
  | waiting =>
    rw [Lock.conclude]
    split
    case isTrue => exact abandon_tidy _ _ now
    case isFalse => exact pause_tidy hs w _ r now
  | reclaimed =>
    rw [Lock.conclude]
    split
    case h_1 ha => exact tidy_of_attempt ha fun _ => hs
    case h_2 =>
      refine tidy_of_attempt (withoutAttempt_attempt l) fun _ => ?_
      change l.withoutAttempt.state ≠ .idle
      rw [withoutAttempt_state]
      exact hs

lemma reclaim_tidy (hs : l.state ≠ .idle) (w : Window) (st : Lock.Standing) (names : List String)
    (r : Reading) (now : Instant) : (ofTurn (l.reclaim w st names r) now).Tidy := by
  cases names with
  | nil => exact conclude_tidy hs w st r now
  | cons name rest => exact tidy_of_state hs id rfl

lemma judge_tidy (hs : l.state ≠ .idle) (w : Window) (listed : List String) (r : Reading)
    (now : Instant) : (ofTurn (l.judge w listed r) now).Tidy := by
  rw [Lock.judge]
  split
  case h_1 => exact conclude_tidy hs w _ r now
  case h_2 =>
    refine reclaim_tidy ?_ w _ _ r now
    rw [Lock.observe_state]
    exact hs

lemma wake_tidy (hs : l.state ≠ .idle) (rest : Lock.Rest) (ended : PauseEnd) (r : Reading)
    (now : Instant) : (ofTurn (l.wake rest ended r) now).Tidy := by
  cases ended with
  | cancelled => exact abandon_tidy l _ now
  | elapsed =>
    rw [Lock.wake]
    split
    case h_1 => exact conclude_tidy hs _ _ r now
    case h_2 => exact tidy_of_state hs id rfl

lemma Tidy.resume (h : m.Tidy) {phase : Lock.Phase} (hp : m.progress = some (.request phase))
    (answer : phase.request.Answer) (r : Reading) (now : Instant) :
    (ofTurn (m.lock.resume phase answer r) now).Tidy := by
  -- What the phase tells of the attempt and the state.
  have trying : IsTrying ⟨m.lock, some (.request phase), now⟩ → m.lock.state ≠ .idle := by
    intro ht
    refine h.trying ?_
    rw [IsTrying, hp]
    exact ht
  have drawing : IsDrawing ⟨m.lock, some (.request phase), now⟩ → m.lock.attempt = none := by
    intro hd
    refine h.drawing ?_
    rw [IsDrawing, hp]
    exact hd
  have leaving (n : String) : phase.own? = some n → m.lock.attempt = none := by
    intro hn
    refine h.leaving n ?_
    rw [leaving?, hp]
    exact hn
  cases phase with
  | clearing limit name => exact start_tidy (leaving name rfl) limit r now
  | seeding w =>
    cases answer with
    | ok listed =>
      refine tidy_of_attempt ?_ fun _ => ?_
      · exact Lock.observe_attempt.trans (drawing trivial)
      · change (m.lock.observe listed r.now).state ≠ .idle
        rw [Lock.observe_state]
        exact trying trivial
    | error e => exact abandon_tidy _ _ now
  | creating w entry contents =>
    cases answer with
    | ok u =>
      refine pause_tidy ?_ w _ r now
      exact trying trivial
    | error e => exact abandon_tidy _ _ now
  | ranking w =>
    cases answer with
    | ok listed => exact judge_tidy (trying trivial) w listed r now
    | error e => exact abandon_tidy _ _ now
  | reclaiming w st name rest => exact reclaim_tidy (trying trivial) w st rest r now
  | discarding w name => exact tidy_of_attempt (leaving name rfl) fun _ => trying trivial
  | abandoning name o => exact tidy_of_attempt (leaving name rfl) False.elim
  | releasing name =>
    cases answer with
    | ok u => exact tidy_of_attempt (leaving name rfl) False.elim
    | error e => exact tidy_of_attempt (leaving name rfl) False.elim

/-- Every step leaves a member tidy. -/
theorem Step.tidy (st : Step m input m') (h : m.Tidy) : m'.Tidy := by
  cases st with
  | acquire => exact acquire_tidy h.idle _ _ _
  | release => exact release_tidy h.idle _
  | answer hp => exact h.resume hp _ _ _
  | wake hp =>
    refine wake_tidy (h.trying ?_) _ _ _ _
    rw [IsTrying, hp]
    trivial
  | drop =>
    refine ⟨False.elim, h.idle, False.elim, ?_⟩
    rintro n ⟨⟩

end StoreLock.Member
