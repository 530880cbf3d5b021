import StoreLock.Proofs.Lock.Member

/-!
# What one step can do

Most inputs teach a lock nothing about the store: the call goes on, gives up, or deletes one more
name. `Leads` says what such a turn can do, one lemma for each function of the machine says that its
turns are of that kind, and `Step.cases` puts them together: a step either continues in that way, or
it is one of the three answers that matter, a listing before an entry is created, a created entry,
and a listing that ranks it.
-/

namespace StoreLock

namespace Member

/-- What becomes of a lock `l` in a turn that learns nothing from the store. Only the given names
and the own entry are to be deleted, the latter only once the attempt is over; the own entry counts
as first only if `held` or `first`, and its standing is followed only if `queuing`. -/
structure Leads (l : Lock) (names : List String) (held first queuing : Prop) (m : Member) :
    Prop where
  lockPrefix : m.lock.lockPrefix = l.lockPrefix
  owner : m.lock.owner = l.owner
  timings : m.lock.timings = l.timings
  sequencer : m.lock.sequencer = l.sequencer
  attempt : ∀ a, m.lock.attempt = some a → l.attempt = some a
  sightings : ∀ p ∈ m.lock.sightings.firstSeen, p ∈ l.sightings.firstSeen
  pending : m.pending? = none
  doomed : ∀ n ∈ m.doomed, n ∈ names ∨
    ∃ a, l.attempt = some a ∧ n = a.entry.name ∧ m.lock.attempt = none
  chosen : ∀ a, m.Chooses a → held ∨ first
  resting : m.lock.state = .held → held ∨ m.IsResting
  queuing : m.IsQueuing → queuing ∧ m.lock.attempt = l.attempt

variable {l : Lock} {names names' : List String} {held held' first first' queuing queuing' : Prop}
  {m m' : Member} {now : Instant}

/-- More may be allowed than happens. -/
lemma Leads.mono (h : Leads l names held first queuing m) (hn : ∀ n ∈ names, n ∈ names')
    (hh : held → held') (hf : first → held' ∨ first') (hq : queuing → queuing') :
    Leads l names' held' first' queuing' m where
  lockPrefix := h.lockPrefix
  owner := h.owner
  timings := h.timings
  sequencer := h.sequencer
  attempt := h.attempt
  sightings := h.sightings
  pending := h.pending
  doomed n hm := (h.doomed n hm).imp_left (hn n)
  chosen a ha := (h.chosen a ha).elim (fun x => .inl (hh x)) hf
  resting hs := (h.resting hs).imp_left hh
  queuing hm := (h.queuing hm).imp_left hq

/-- Where a turn leads does not depend on the state the lock is in before it. -/
lemma Leads.of_state {s : LockState}
    (h : Leads { l with state := s } names held first queuing m) :
    Leads l names held first queuing m :=
  ⟨h.lockPrefix, h.owner, h.timings, h.sequencer, h.attempt, h.sightings, h.pending, h.doomed,
    h.chosen, h.resting, h.queuing⟩

/-- A lock that was not held before a turn does not owe being held to that. -/
lemma Leads.of_not (h : Leads l names held first queuing m) (hh : ¬ held) :
    Leads l names False first queuing m :=
  h.mono (fun _ hn => hn) hh .inr id

/-- A turn that leaves the lock as it is and has nothing to delete or to create. -/
lemma leads_keeping {p : Lock.Progress} (hs : l.state = .held → held)
    (hp : (ofTurn (l, p) now).pending? = none) (hd : (ofTurn (l, p) now).doomed = [])
    (hq : (ofTurn (l, p) now).IsQueuing → queuing) :
    Leads l [] held False queuing (ofTurn (l, p) now) where
  lockPrefix := rfl
  owner := rfl
  timings := rfl
  sequencer := rfl
  attempt _ h := h
  sightings _ h := h
  pending := hp
  doomed n hn := by
    rw [hd] at hn
    cases hn
  chosen := by
    -- A call that is reclaiming has something to delete.
    rintro a ⟨-, h | ⟨w, n, rest, h⟩⟩
    · exact .inl (hs h)
    · rw [doomed, h] at hd
      cases hd
  resting h := .inl (hs h)
  queuing h := ⟨hq h, rfl⟩

lemma leads_done (o : Outcome) (hs : l.state = .held → held) :
    Leads l [] held False False (ofTurn (l, .done o) now) :=
  leads_keeping hs rfl rfl id

lemma leads_seeding (w : Window) (hs : l.state = .held → held) :
    Leads l [] held False False (ofTurn (l, .request (.seeding w)) now) :=
  leads_keeping hs rfl rfl id

/-- A call that deletes its own entry has given up the attempt before. -/
lemma leads_deleting {a : Attempt} {s : LockState} {phase : Lock.Phase} (ha : l.attempt = some a)
    (hs : s = .held → held) (hd : phase.doomed = [a.entry.name])
    (hr : ∀ w st n rest, phase ≠ .reclaiming w st n rest) :
    Leads l [] held False False (ofTurn ({ l.withoutAttempt with state := s }, .request phase) now) := by
  -- Giving up the attempt forgets its name, and changes nothing else.
  have hw : l.withoutAttempt =
      { l with attempt := none, sightings := l.sightings.forget a.entry.name } := by
    rw [Lock.withoutAttempt, ha]
  rw [hw]
  refine ⟨rfl, rfl, rfl, rfl, nofun, ?_, ?_, ?_, ?_, fun h => .inl (hs h), ?_⟩
  · exact fun _ h => (Sightings.mem_forget.mp h).1
  · cases phase <;> first | rfl | cases hd
  · intro n hn
    have hn' : n ∈ phase.doomed := hn
    rw [hd, List.mem_singleton] at hn'
    exact .inr ⟨a, ha, hn', rfl⟩
  · rintro _ ⟨h, -⟩
    cases h
  · intro h
    cases phase with
    | ranking w => cases hd
    | reclaiming w st n rest => exact (hr w st n rest rfl).elim
    | _ => exact h.elim

/-- A call that gives up its attempt deletes the entry next. -/
lemma leads_withoutAttempt {a : Attempt} {phase : Lock.Phase} (ha : l.attempt = some a)
    (hd : phase.doomed = [a.entry.name]) (hr : ∀ w st n rest, phase ≠ .reclaiming w st n rest) :
    Leads l [] (l.state = .held) False False (ofTurn (l.withoutAttempt, .request phase) now) := by
  have hs : l.withoutAttempt.state = .held → l.state = .held := by
    simp [Lock.withoutAttempt, ha]
  exact leads_deleting (s := l.withoutAttempt.state) ha hs hd hr

/-- Giving up ends the attempt. -/
lemma abandon_leads (l : Lock) (o : Outcome) (now : Instant) :
    Leads l [] (l.state = .held) False False (ofTurn (l.abandon o) now) := by
  rw [Lock.abandon]
  split
  case h_1 => exact (leads_done (l := { l with state := .idle }) o nofun).of_state
  case h_2 a ha => exact leads_withoutAttempt ha rfl nofun

/-- A pause follows the standing of the own entry. -/
lemma pause_leads (l : Lock) (w : Window) (d : Duration) (r : Reading) (now : Instant) :
    Leads l [] (l.state = .held) False True (ofTurn (l.pause w d r) now) := by
  rw [Lock.pause]
  split
  case isTrue => exact (abandon_leads l _ now).mono (by simp) id .inr nofun
  case isFalse => exact leads_keeping id rfl rfl id

/-- A call that begins has nothing to delete unless it ends at once. -/
lemma start_leads (l : Lock) (limit : WaitLimit) (r : Reading) (now : Instant) :
    Leads l [] False False False (ofTurn (l.start limit r) now) := by
  rw [Lock.start]
  split
  case isTrue =>
    have h := abandon_leads { l with state := .acquiring } (.failed .cancelled) now
    exact (h.of_not nofun).of_state
  case isFalse => exact (leads_seeding (l := { l with state := .acquiring }) _ nofun).of_state

lemma acquire_leads (l : Lock) (limit : WaitLimit) (r : Reading) (now : Instant) :
    Leads l [] (l.state = .held) False False (ofTurn (l.acquire limit r) now) := by
  have fresh : Leads l [] (l.state = .held) False False
      (ofTurn ({ l with state := .idle }.start limit r) now) := by
    have h := start_leads { l with state := .idle } limit r now
    exact h.of_state.mono (by simp) nofun nofun nofun
  rw [Lock.acquire]
  split
  case h_1 => exact leads_done _ id
  case h_2 => exact (start_leads l limit r now).mono (by simp) nofun nofun nofun
  -- A dropped call leaves the lock acquiring; a failed one is over, but both are cleared alike.
  case h_3 =>
    split
    case h_1 => exact fresh
    case h_2 a ha => exact leads_withoutAttempt ha rfl nofun
  case h_4 =>
    split
    case h_1 => exact fresh
    case h_2 a ha => exact leads_withoutAttempt ha rfl nofun

lemma release_leads (l : Lock) (now : Instant) :
    Leads l [] (l.state = .held) False False (ofTurn l.release now) := by
  rw [Lock.release]
  split
  case isFalse => exact leads_done _ id
  case isTrue hs =>
    split
    case h_1 => exact (leads_done (l := { l with state := .idle }) _ nofun).of_state
    case h_2 a ha => exact leads_deleting ha nofun rfl nofun

/-- Going on as the standing asks for. -/
lemma conclude_leads (l : Lock) (w : Window) (st : Lock.Standing) (r : Reading) (now : Instant) :
    Leads l [] (l.state = .held) (st = .first) True (ofTurn (l.conclude w st r) now) := by
  cases st with
  | first =>
    refine ⟨rfl, rfl, rfl, rfl, fun _ h => h, fun _ h => h, rfl, nofun, fun _ _ => .inr rfl,
      fun _ => .inr trivial, fun _ => ⟨trivial, rfl⟩⟩
  | waiting =>
    rw [Lock.conclude]
    split
    case isTrue =>
      have h := abandon_leads { l with state := .failed } .gaveUp now
      exact (h.of_not nofun).of_state.mono (by simp) nofun nofun nofun
    case isFalse => exact (pause_leads l w _ r now).mono (by simp) id nofun id
  | reclaimed =>
    rw [Lock.conclude]
    cases ha : l.attempt with
    | none => exact (leads_seeding w id).mono (by simp) id nofun nofun
    | some a =>
      have h : Leads l [] (l.state = .held) False False
          (ofTurn (l.withoutAttempt, .request (.discarding w a.entry.name)) now) :=
        leads_withoutAttempt ha rfl nofun
      exact h.mono (by simp) id nofun nofun

lemma reclaim_leads (l : Lock) (w : Window) (st : Lock.Standing) (names : List String) (r : Reading)
    (now : Instant) :
    Leads l names (l.state = .held) (st = .first) True (ofTurn (l.reclaim w st names r) now) := by
  cases names with
  | nil => exact conclude_leads l w st r now
  | cons name rest =>
    refine ⟨rfl, rfl, rfl, rfl, fun _ h => h, fun _ h => h, rfl, fun _ hn => .inl hn, ?_, .inl,
      fun _ => ⟨trivial, rfl⟩⟩
    rintro a ⟨-, h | ⟨w', n, rest', h⟩⟩
    · exact .inl h
    · cases h
      exact .inr rfl

/-- Judging a listing: what it shows to be stale is deleted. -/
lemma judge_leads {a : Attempt} (w : Window) (listed : List String) (r : Reading) (now : Instant)
    (ha : l.attempt = some a) :
    Leads (l.observe listed r.now) ((l.observe listed r.now).stale a.entry listed r.now)
      (l.state = .held) ((l.observe listed r.now).standing a listed r.now = .first) True
      (ofTurn (l.judge w listed r) now) := by
  have h := reclaim_leads (l.observe listed r.now) w
    ((l.observe listed r.now).standing a listed r.now)
    ((l.observe listed r.now).stale a.entry listed r.now) r now
  rw [Lock.observe_state] at h
  rw [Lock.judge, ha]
  exact h

lemma wake_leads (l : Lock) (rest : Lock.Rest) (ended : PauseEnd) (r : Reading) (now : Instant) :
    Leads l [] (l.state = .held) False True (ofTurn (l.wake rest ended r) now) := by
  cases ended with
  | cancelled => exact (abandon_leads l _ now).mono (by simp) id .inr nofun
  | elapsed =>
    rw [Lock.wake]
    cases ha : l.attempt with
    | none => exact (conclude_leads l _ .reclaimed r now).mono (by simp) id nofun id
    | some a => exact leads_keeping id rfl rfl id

/-- A step that teaches the lock nothing about the store. -/
structure Continues (m : Member) (input : Input) (m' : Member) : Prop where
  listing : input.listing? = none
  created : input.created? = none
  leads : Leads m.lock m.doomed (m.lock.state = .held) m.IsFirst m.IsQueuing m'

/-- A listing is answered, and the entry to be created is drawn behind it. -/
def Draws (m : Member) (input : Input) (m' : Member) : Prop :=
  ∃ w listed r, m.progress = some (.request (.seeding w)) ∧
    input = .answer (.seeding w) (.ok listed) r ∧
    m' = ofTurn (m.lock.register w listed r) r.now

/-- The entry has been created, and the settling pause begins. -/
def Creates (m : Member) (input : Input) (m' : Member) : Prop :=
  ∃ w entry contents r, m.progress = some (.request (.creating w entry contents)) ∧
    input = .answer (.creating w entry contents) (.ok ()) r ∧
    m' = ofTurn ({ m.lock with attempt := some ⟨entry, r.now⟩ }.pause w m.lock.timings.settling r)
      r.now

/-- A listing is answered, and the own entry is ranked in it. -/
def Ranks (m : Member) (input : Input) (m' : Member) : Prop :=
  ∃ w listed r, m.progress = some (.request (.ranking w)) ∧
    input = .answer (.ranking w) (.ok listed) r ∧
    m' = ofTurn (m.lock.judge w listed r) r.now

/-- What one step can do: it continues, or it is one of the three answers that matter. -/
theorem Step.cases {input : Input} (st : Step m input m') :
    Continues m input m' ∨ Draws m input m' ∨ Creates m input m' ∨ Ranks m input m' := by
  cases st with
  | acquire => exact .inl ⟨rfl, rfl, (acquire_leads _ _ _ _).mono (by simp) id nofun nofun⟩
  | release => exact .inl ⟨rfl, rfl, (release_leads _ _).mono (by simp) id nofun nofun⟩
  | @wake d rest ended r hp =>
    have hq : m.IsQueuing := by
      rw [IsQueuing, hp]
      trivial
    exact .inl ⟨rfl, rfl, (wake_leads _ _ _ _ _).mono (by simp) id nofun fun _ => hq⟩
  | drop =>
    refine .inl ⟨rfl, rfl, ?_⟩
    refine ⟨rfl, rfl, rfl, rfl, fun _ h => h, fun _ h => h, rfl, nofun, ?_, .inl, nofun⟩
    rintro a ⟨-, h | ⟨w, n, rest, h⟩⟩
    · exact .inl h
    · cases h
  | @answer phase answer r hp =>
    -- An answer that ends the attempt leads wherever giving up leads.
    have giveUp (o : Outcome) :
        Leads m.lock m.doomed (m.lock.state = .held) m.IsFirst m.IsQueuing
          (ofTurn (m.lock.abandon o) r.now) :=
      (abandon_leads _ _ _).mono (by simp) id nofun nofun
    cases phase with
    | clearing limit n =>
      have h := start_leads { m.lock with state := .idle } limit r r.now
      exact .inl ⟨rfl, rfl, h.of_state.mono (by simp) nofun nofun nofun⟩
    | seeding w =>
      cases answer with
      | ok listed => exact .inr (.inl ⟨w, listed, r, hp, rfl, rfl⟩)
      | error e => exact .inl ⟨rfl, rfl, giveUp _⟩
    | creating w entry contents =>
      cases answer with
      | ok u => exact .inr (.inr (.inl ⟨w, entry, contents, r, hp, rfl, rfl⟩))
      | error e => exact .inl ⟨rfl, rfl, giveUp _⟩
    | ranking w =>
      cases answer with
      | ok listed => exact .inr (.inr (.inr ⟨w, listed, r, hp, rfl, rfl⟩))
      | error e => exact .inl ⟨rfl, rfl, giveUp _⟩
    | reclaiming w st n rest =>
      have hd : ∀ x ∈ rest, x ∈ m.doomed := by
        rw [doomed, hp]
        exact fun _ hx => List.mem_cons_of_mem _ hx
      have hq : m.IsQueuing := by
        rw [IsQueuing, hp]
        trivial
      refine .inl ⟨rfl, rfl, (reclaim_leads _ w st rest r r.now).mono hd id ?_ fun _ => hq⟩
      rintro rfl
      exact .inr ⟨w, n, rest, hp⟩
    | discarding w n =>
      exact .inl ⟨rfl, rfl, (leads_seeding w id).mono (by simp) id nofun nofun⟩
    | abandoning n o =>
      have h : Leads { m.lock with state := .idle } [] False False False
          (ofTurn ({ m.lock with state := .idle }, .done o) r.now) := leads_done o nofun
      exact .inl ⟨rfl, rfl, h.of_state.mono (by simp) nofun nofun nofun⟩
    | releasing n =>
      cases answer with
      | ok u => exact .inl ⟨rfl, rfl, (leads_done _ id).mono (by simp) id nofun nofun⟩
      | error e => exact .inl ⟨rfl, rfl, (leads_done _ id).mono (by simp) id nofun nofun⟩

end Member

end StoreLock
