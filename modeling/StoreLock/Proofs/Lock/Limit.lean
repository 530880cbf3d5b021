import StoreLock.Proofs.Lock.Advance

/-!
# How long a call may wait

The limit with which a call begins stays with it, and so does the time from which it counts once it
has one: whatever a member does next, it does within the span it has, unless a new call begins
(`Step.span`). Each function of the machine hands on the window it was given.
-/

namespace StoreLock

/-- How long a call may wait, and since when, if that has begun to count. -/
structure Span where
  /-- How long it may wait. -/
  limit : WaitLimit
  /-- When the wait began. -/
  start : Option Instant

/-- The span of a call whose wait has begun to count. -/
def Window.span (w : Window) : Span :=
  ⟨w.limit, some w.start⟩

namespace Lock

/-- The limit of the call that waits in this phase; a call that only deletes its entry has none. -/
def Phase.limit? : Phase → Option WaitLimit
  | .clearing limit _ => some limit
  | .seeding w => some w.limit
  | .creating w _ _ => some w.limit
  | .ranking w => some w.limit
  | .reclaiming w _ _ _ => some w.limit
  | .discarding w _ => some w.limit
  | .abandoning _ _ => none
  | .releasing _ => none

/-- The limit of a call that has come this far. -/
def Progress.limit? : Progress → Option WaitLimit
  | .request phase => phase.limit?
  | .pause _ rest => some rest.window.limit
  | .done _ => none

/-- The span of the call that waits in this phase: while an earlier entry is being deleted, its wait
does not count. -/
def Phase.span? : Phase → Option Span
  | .clearing limit _ => some ⟨limit, none⟩
  | .seeding w => some w.span
  | .creating w _ _ => some w.span
  | .ranking w => some w.span
  | .reclaiming w _ _ _ => some w.span
  | .discarding w _ => some w.span
  | .abandoning _ _ => none
  | .releasing _ => none

/-- The span of a call that has come this far. -/
def Progress.span? : Progress → Option Span
  | .request phase => phase.span?
  | .pause _ rest => some rest.window.span
  | .done _ => none

variable {l : Lock} {w : Window} {limit : WaitLimit} {s : Span} {r : Reading}

lemma Progress.limit?_eq (p : Progress) : p.limit? = p.span?.map (·.limit) := by
  cases p with
  | request phase => cases phase <;> rfl
  | pause d rest => rfl
  | done o => rfl

lemma abandon_span?_ne_some (o : Outcome) : (l.abandon o).2.span? ≠ some s := by
  intro h
  rw [abandon] at h
  cases ha : l.attempt with
  | none =>
    rw [ha] at h
    cases h
  | some a =>
    rw [ha] at h
    cases h

lemma pause_span? {d : Duration} (h : (l.pause w d r).2.span? = some s) : s = w.span := by
  rw [pause] at h
  split at h
  case isTrue => exact absurd h (abandon_span?_ne_some _)
  case isFalse => exact (Option.some.inj h).symm

lemma start_span? (h : (l.start limit r).2.span? = some s) : s = ⟨limit, some r.now⟩ := by
  rw [start] at h
  split at h
  case isTrue => exact absurd h (abandon_span?_ne_some _)
  case isFalse => exact (Option.some.inj h).symm

/-- A call starts at once, unless it has to clear away the entry of an earlier one. -/
lemma acquire_span? (h : (l.acquire limit r).2.span? = some s) :
    s = ⟨limit, none⟩ ∨ s = ⟨limit, some r.now⟩ := by
  rw [acquire] at h
  split at h
  case h_1 => cases h
  case h_2 => exact .inr (start_span? h)
  case h_3 =>
    split at h
    case h_1 => exact .inr (start_span? h)
    case h_2 => exact .inl (Option.some.inj h).symm
  case h_4 =>
    split at h
    case h_1 => exact .inr (start_span? h)
    case h_2 => exact .inl (Option.some.inj h).symm

lemma release_span? : l.release.2.span? = none := by
  rw [release]
  split
  case isTrue => cases l.attempt <;> rfl
  case isFalse => rfl

lemma conclude_span? {st : Standing} (h : (l.conclude w st r).2.span? = some s) : s = w.span := by
  cases st with
  | first => cases h
  | waiting =>
    rw [conclude] at h
    split at h
    case isTrue => exact absurd h (abandon_span?_ne_some _)
    case isFalse => exact pause_span? h
  | reclaimed =>
    rw [conclude] at h
    cases ha : l.attempt <;> rw [ha] at h <;> exact (Option.some.inj h).symm

lemma reclaim_span? {st : Standing} {names : List String}
    (h : (l.reclaim w st names r).2.span? = some s) : s = w.span := by
  cases names with
  | nil => exact conclude_span? h
  | cons name rest => exact (Option.some.inj h).symm

lemma judge_span? {listed : List String} (h : (l.judge w listed r).2.span? = some s) :
    s = w.span := by
  rw [judge] at h
  cases ha : l.attempt with
  | none =>
    rw [ha] at h
    exact conclude_span? h
  | some a =>
    rw [ha] at h
    exact reclaim_span? h

lemma wake_span? {rest : Rest} {ended : PauseEnd} (h : (l.wake rest ended r).2.span? = some s) :
    s = rest.window.span := by
  cases ended with
  | cancelled => exact absurd h (abandon_span?_ne_some _)
  | elapsed =>
    rw [wake] at h
    cases ha : l.attempt with
    | none =>
      rw [ha] at h
      exact conclude_span? h
    | some a =>
      rw [ha] at h
      exact (Option.some.inj h).symm

/-- Going on with the answer of the store keeps the span, or starts a call that had yet to start. -/
lemma resume_span? {phase : Phase} {answer : phase.request.Answer}
    (h : (l.resume phase answer r).2.span? = some s) :
    phase.span? = some s ∨ (phase.span? = some ⟨s.limit, none⟩ ∧ s.start = some r.now) := by
  cases phase with
  | clearing limit' name =>
    cases start_span? h
    exact .inr ⟨rfl, rfl⟩
  | seeding w =>
    cases answer with
    | ok listed => exact .inl h
    | error e => exact absurd h (abandon_span?_ne_some _)
  | creating w entry contents =>
    cases answer with
    | ok u => exact .inl (congrArg some (pause_span? h).symm)
    | error e => exact absurd h (abandon_span?_ne_some _)
  | ranking w =>
    cases answer with
    | ok listed => exact .inl (congrArg some (judge_span? h).symm)
    | error e => exact absurd h (abandon_span?_ne_some _)
  | reclaiming w st name rest => exact .inl (congrArg some (reclaim_span? h).symm)
  | discarding w name => exact .inl h
  | abandoning name o => cases h
  | releasing name => cases answer <;> cases h

end Lock

namespace Member

/-- The limit of the call in progress. -/
def limit? (m : Member) : Option WaitLimit :=
  m.progress.bind Lock.Progress.limit?

/-- The span of the call in progress. -/
def span? (m : Member) : Option Span :=
  m.progress.bind Lock.Progress.span?

variable {m m' : Member} {input : Input}

lemma limit?_eq (m : Member) : m.limit? = m.span?.map (·.limit) := by
  rw [limit?, span?]
  cases m.progress with
  | none => rfl
  | some p => exact p.limit?_eq

/-- A call keeps the span it has; it gets one when it begins, and when it starts to count. -/
theorem Step.span (st : Step m input m') {s : Span} (h : m'.span? = some s) :
    m.span? = some s ∨
      (m.span? = some ⟨s.limit, none⟩ ∧ s.start = some input.reading.now) ∨
      ∃ r, input = .acquire s.limit r ∧ (s.start = none ∨ s.start = some r.now) := by
  cases st with
  | @acquire limit r =>
    rcases Lock.acquire_span? h with rfl | rfl
    · exact .inr (.inr ⟨r, rfl, .inl rfl⟩)
    · exact .inr (.inr ⟨r, rfl, .inr rfl⟩)
  | release =>
    have hr : m.lock.release.2.span? = some s := h
    rw [Lock.release_span?] at hr
    cases hr
  | answer hp =>
    rw [span?, hp]
    rcases Lock.resume_span? h with h | ⟨h, hs⟩
    · exact .inl h
    · exact .inr (.inl ⟨h, hs⟩)
  | wake hp =>
    left
    rw [span?, hp]
    exact congrArg some (Lock.wake_span? h).symm
  | drop => cases h

/-- A call keeps the limit with which it began. -/
theorem Step.limit (st : Step m input m') {limit : WaitLimit} (h : m'.limit? = some limit) :
    m.limit? = some limit ∨ ∃ r, input = .acquire limit r := by
  rw [limit?_eq] at h ⊢
  obtain ⟨s, hs, rfl⟩ := Option.map_eq_some_iff.mp h
  rcases st.span hs with h | ⟨h, -⟩ | ⟨r, hi, -⟩
  · exact .inl (congrArg _ h)
  · exact .inl (congrArg _ h)
  · exact .inr ⟨r, hi⟩

end Member

end StoreLock
