import StoreLock.Proofs.Lock.Advance

/-!
# What becomes of an attempt

A lock gives up the entry of its attempt in one way only: the attempt ends, the sighting of its name
is forgotten, and the name is what the lock asks to have deleted next. `Hands` says that a turn either
does this or leaves attempt and sightings as they are, with one lemma for each function of the
machine. With what an input tells the lock (`Lock.told`) they tell of every step exactly where the
entry and the sightings are after it (`Step.hands`).
-/

namespace StoreLock

namespace Lock

/-- The own entry that a call in this phase is deleting. -/
def Phase.own? : Phase → Option String
  | .clearing _ name => some name
  | .seeding _ => none
  | .creating _ _ _ => none
  | .ranking _ => none
  | .reclaiming _ _ _ _ => none
  | .discarding _ name => some name
  | .abandoning name _ => some name
  | .releasing name => some name

/-- What a lock knows by an input before it goes on: a listing is observed, and a created entry is
that of the attempt. -/
def told (l : Lock) : Input → Lock
  | .answer (.seeding _) (.ok listed) r => l.observe listed r.now
  | .answer (.ranking _) (.ok listed) r => l.observe listed r.now
  | .answer (.creating _ entry _) (.ok ()) r => { l with attempt := some ⟨entry, r.now⟩ }
  | _ => l

/-- Only by a listing a lock is told of other names. -/
lemma told_cases (l : Lock) (input : Input) :
    (∃ listed, input.listing? = some listed ∧
        l.told input = l.observe listed input.reading.now) ∨
      (input.listing? = none ∧ (l.told input).sightings = l.sightings) := by
  cases input with
  | answer phase answer r =>
    cases phase with
    | seeding w =>
      cases answer with
      | ok listed => exact .inl ⟨listed, rfl, rfl⟩
      | error e => exact .inr ⟨rfl, rfl⟩
    | ranking w =>
      cases answer with
      | ok listed => exact .inl ⟨listed, rfl, rfl⟩
      | error e => exact .inr ⟨rfl, rfl⟩
    | creating w entry contents => cases answer <;> exact .inr ⟨rfl, rfl⟩
    | _ => exact .inr ⟨rfl, rfl⟩
  | _ => exact .inr ⟨rfl, rfl⟩

end Lock

namespace Member

/-- The own entry that the call in progress is deleting. -/
def leaving? (m : Member) : Option String :=
  match m.progress with
  | some (.request phase) => phase.own?
  | _ => none

lemma IsResting.progress_cases {m : Member} (h : m.IsResting) :
    m.progress = none ∨ ∃ o, m.progress = some (.done o) := by
  rw [IsResting] at h
  split at h
  case h_1 hp => exact .inl hp
  case h_2 o hp => exact .inr ⟨o, hp⟩
  case h_3 => exact h.elim
  case h_4 => exact h.elim

/-- What becomes of the attempt of a lock `l` in a turn: it is kept, or it ends and its entry is to be
deleted. -/
inductive Hands (l : Lock) (m : Member) : Prop where
  | keeps :
    m.lock.attempt = l.attempt →
    m.lock.sightings = l.sightings →
    m.leaving? = none →
    Hands l m
  | leaves {a} :
    l.attempt = some a →
    m.lock.attempt = none →
    m.lock.sightings = l.sightings.forget a.entry.name →
    m.leaving? = some a.entry.name →
    Hands l m

variable {l : Lock} {m m' : Member} {now : Instant}

/-- What becomes of an attempt does not depend on the state the lock is in before. -/
lemma Hands.of_state {s : LockState} (h : Hands { l with state := s } m) : Hands l m := by
  cases h with
  | keeps ha hs hl => exact .keeps ha hs hl
  | leaves ha hn hs hl => exact .leaves ha hn hs hl

lemma hands_keeping {p : Lock.Progress} {s : LockState}
    (hp : (ofTurn ({ l with state := s }, p) now).leaving? = none) :
    Hands l (ofTurn ({ l with state := s }, p) now) :=
  .keeps rfl rfl hp

lemma hands_leaving {a : Attempt} {s : LockState} {phase : Lock.Phase} (ha : l.attempt = some a)
    (hp : phase.own? = some a.entry.name) :
    Hands l (ofTurn ({ l.withoutAttempt with state := s }, .request phase) now) := by
  have hw : l.withoutAttempt =
      { l with attempt := none, sightings := l.sightings.forget a.entry.name } := by
    rw [Lock.withoutAttempt, ha]
  rw [hw]
  exact .leaves ha rfl rfl hp

lemma hands_withoutAttempt {a : Attempt} {phase : Lock.Phase} (ha : l.attempt = some a)
    (hp : phase.own? = some a.entry.name) :
    Hands l (ofTurn (l.withoutAttempt, .request phase) now) :=
  hands_leaving (s := l.withoutAttempt.state) ha hp

lemma abandon_hands (l : Lock) (o : Outcome) (now : Instant) :
    Hands l (ofTurn (l.abandon o) now) := by
  rw [Lock.abandon]
  split
  case h_1 => exact hands_keeping rfl
  case h_2 a ha => exact hands_withoutAttempt ha rfl

lemma pause_hands (l : Lock) (w : Window) (d : Duration) (r : Reading) (now : Instant) :
    Hands l (ofTurn (l.pause w d r) now) := by
  rw [Lock.pause]
  split
  case isTrue => exact abandon_hands l _ now
  case isFalse => exact .keeps rfl rfl rfl

lemma start_hands (l : Lock) (limit : WaitLimit) (r : Reading) (now : Instant) :
    Hands l (ofTurn (l.start limit r) now) := by
  rw [Lock.start]
  split
  case isTrue => exact (abandon_hands { l with state := .acquiring } _ now).of_state
  case isFalse => exact hands_keeping rfl

lemma acquire_hands (l : Lock) (limit : WaitLimit) (r : Reading) (now : Instant) :
    Hands l (ofTurn (l.acquire limit r) now) := by
  have fresh : Hands l (ofTurn ({ l with state := .idle }.start limit r) now) :=
    (start_hands { l with state := .idle } limit r now).of_state
  rw [Lock.acquire]
  split
  case h_1 => exact .keeps rfl rfl rfl
  case h_2 => exact start_hands l limit r now
  case h_3 =>
    split
    case h_1 => exact fresh
    case h_2 a ha => exact hands_withoutAttempt ha rfl
  case h_4 =>
    split
    case h_1 => exact fresh
    case h_2 a ha => exact hands_withoutAttempt ha rfl

lemma release_hands (l : Lock) (now : Instant) : Hands l (ofTurn l.release now) := by
  rw [Lock.release]
  split
  case isTrue =>
    split
    case h_1 => exact hands_keeping rfl
    case h_2 a ha => exact hands_leaving ha rfl
  case isFalse => exact .keeps rfl rfl rfl

lemma conclude_hands (l : Lock) (w : Window) (st : Lock.Standing) (r : Reading) (now : Instant) :
    Hands l (ofTurn (l.conclude w st r) now) := by
  cases st with
  | first => exact hands_keeping rfl
  | waiting =>
    rw [Lock.conclude]
    split
    case isTrue => exact (abandon_hands { l with state := .failed } _ now).of_state
    case isFalse => exact pause_hands l w _ r now
  | reclaimed =>
    rw [Lock.conclude]
    split
    case h_1 => exact .keeps rfl rfl rfl
    case h_2 a ha => exact hands_withoutAttempt ha rfl

lemma reclaim_hands (l : Lock) (w : Window) (st : Lock.Standing) (names : List String) (r : Reading)
    (now : Instant) : Hands l (ofTurn (l.reclaim w st names r) now) := by
  cases names with
  | nil => exact conclude_hands l w st r now
  | cons name rest => exact .keeps rfl rfl rfl

lemma judge_hands {a : Attempt} (w : Window) (listed : List String) (r : Reading) (now : Instant)
    (ha : l.attempt = some a) :
    Hands (l.observe listed r.now) (ofTurn (l.judge w listed r) now) := by
  rw [Lock.judge, ha]
  exact reclaim_hands _ w _ _ r now

lemma wake_hands (l : Lock) (rest : Lock.Rest) (ended : PauseEnd) (r : Reading) (now : Instant) :
    Hands l (ofTurn (l.wake rest ended r) now) := by
  cases ended with
  | cancelled => exact abandon_hands l _ now
  | elapsed =>
    rw [Lock.wake]
    split
    case h_1 => exact conclude_hands l _ _ r now
    case h_2 => exact .keeps rfl rfl rfl

/-- In every step the attempt that the lock has been told of is kept, or it ends and its entry is to
be deleted. -/
theorem Step.hands {input : Input} (st : Step m input m') (hm : m.Coherent) :
    Hands (m.lock.told input) m' := by
  cases st with
  | acquire => exact acquire_hands _ _ _ _
  | release => exact release_hands _ _
  | wake => exact wake_hands _ _ _ _ _
  | drop => exact .keeps rfl rfl rfl
  | @answer phase answer r hp =>
    cases phase with
    | clearing limit name => exact (start_hands { m.lock with state := .idle } limit r r.now).of_state
    | seeding w =>
      cases answer with
      | ok listed => exact .keeps rfl rfl rfl
      | error e => exact abandon_hands _ _ _
    | creating w entry contents =>
      cases answer with
      | ok u => exact pause_hands _ w _ r r.now
      | error e => exact abandon_hands _ _ _
    | ranking w =>
      cases answer with
      | ok listed =>
        obtain ⟨a, ha⟩ := hm.attempt (IsRanking.isQueuing ⟨w, hp⟩)
        exact judge_hands w listed r r.now ha
      | error e => exact abandon_hands _ _ _
    | reclaiming w st name rest => exact reclaim_hands _ w st rest r r.now
    | discarding w name => exact .keeps rfl rfl rfl
    | abandoning name o => exact hands_keeping rfl
    | releasing name =>
      cases answer with
      | ok u => exact .keeps rfl rfl rfl
      | error e => exact .keeps rfl rfl rfl

end Member

end StoreLock
