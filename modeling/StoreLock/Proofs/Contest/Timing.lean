import StoreLock.Proofs.Contest.Order
import StoreLock.Proofs.Lock.Limit

/-!
# Timing

The order of fresh entries rests on three facts about the times of a run: how soon after its listing
an entry is created, how long it exists before it is ranked, and whether others may create entries in
between. `Opening.inOrder` is the order for every run in which they hold; here they are derived from
what a run is allowed to do. Where listing and creating are one step, no time passes between them
(`Level`). Where settling pauses last as long as they should, every ranked entry has settled
(`Timed`), and they do where no call has a limit (`Unhurried`).
-/

namespace StoreLock.Contest

variable {ι : Type} {s s' : Contest ι} {lockPrefix : String}
  {timeout horizon gap settling : Duration}

/-- Where an entry is created that other members cannot reckon with, the horizon exceeds the lag. -/
def Alone (horizon : Duration) (s : Contest ι) (e : Event ι) : Prop :=
  ∀ i input entry, e = .act i input → input.created? = some entry →
    s.store.lag < horizon ∨ ∀ j, j ≠ i → (s.members j).pending? = none

/-- An entry is drawn at the time at which it is created. -/
def Level (s : Contest ι) : Prop :=
  ∀ i e, (s.members i).pending? = some e → s.now ≤ (s.members i).since

/-- An entry is in its settling pause, or it was created at least `settling` before its call came as
far as it has. -/
structure Timed (settling : Duration) (s : Contest ι) : Prop where
  queuing : ∀ i a, (s.members i).lock.attempt = some a → (s.members i).IsQueuing →
    ((∃ d rest, (s.members i).progress = some (.pause d rest)) ∧
        (s.members i).since = a.createdAt) ∨
      a.createdAt + settling ≤ (s.members i).since
  chosen : ∀ i a, (s.members i).Chooses a → a.createdAt + settling ≤ s.now

/-- All members have the same timings. -/
def Uniform (t : Timings) (s : Contest ι) : Prop :=
  ∀ i, (s.members i).lock.timings = t

/-- No call has a limit, and settling pauses are as long as they should be. -/
structure Unhurried (settling : Duration) (s : Contest ι) : Prop where
  limit : ∀ i limit, (s.members i).limit? = some limit → limit = none
  pause : ∀ i a d rest, (s.members i).lock.attempt = some a →
    (s.members i).progress = some (.pause d rest) → (s.members i).since = a.createdAt →
    a.createdAt + settling ≤ (s.members i).since + d

/-- A ranked entry is not in its settling pause. -/
lemma Timed.ranking (h : Timed settling s) {i : ι} {a : Attempt}
    (ha : (s.members i).lock.attempt = some a) (hr : (s.members i).IsRanking) :
    a.createdAt + settling ≤ (s.members i).since := by
  rcases h.queuing i a ha hr.isQueuing with ⟨⟨d, rest, hp⟩, -⟩ | hle
  · obtain ⟨w, hw⟩ := hr
    rw [hw] at hp
    cases hp
  · exact hle

/-- Whoever keeps to the settling time has settled entries. -/
lemma Timed.settled (h : Timed settling s) (sound : Sound lockPrefix timeout s) :
    Settled settling s := by
  rintro i a ha (hr | hc)
  · exact Nat.le_trans (h.ranking ha hr) (sound.since i)
  · exact h.chosen i a hc

lemma Sound.settled_zero (h : Sound lockPrefix timeout s) : Settled 0 s :=
  fun i a ha _ => (h.attempt i a ha).2

/-- Where nothing comes between a listing and the creation, the member that creates an entry is the
only one that is about to. -/
lemma Indivisible.alone {e : Event ι} (hi : Indivisible s e) : Alone horizon s e := by
  rintro i input entry rfl -
  refine .inr fun j hj => ?_
  rw [Member.pending?]
  split
  case h_1 w _ contents hc =>
    obtain ⟨answer, r, he⟩ := hi j w _ contents hc
    cases he
    exact absurd rfl hj
  case h_2 => rfl

/-- Where nothing comes between a listing and the creation, whoever is about to create an entry is
the one who moves. -/
lemma Indivisible.moving {e : Event ι} (hi : Indivisible s e) {i : ι} {entry : Entry}
    (hp : (s.members i).pending? = some entry) : ∃ input, e = .act i input := by
  rw [Member.pending?] at hp
  split at hp
  case h_1 w _ contents hc =>
    obtain ⟨answer, r, rfl⟩ := hi i w _ contents hc
    exact ⟨_, rfl⟩
  case h_2 => cases hp

/-- An entry that is followed before and after a step has settled. -/
lemma Timed.followed {t : Timings} (h : Timed t.settling s) (sound : Sound lockPrefix timeout s)
    (hu : Uniform t s) {i : ι} {input : Input} (hset : Settling s (.act i input))
    (v : Moves s i input s') {a : Attempt} (ha : (s.members i).lock.attempt = some a)
    (hq : (s.members i).IsQueuing) (hq' : (s'.members i).IsQueuing) :
    a.createdAt + t.settling ≤ s.now := by
  rcases h.queuing i a ha hq with ⟨⟨d, rest, hp⟩, ht⟩ | hle
  · obtain ⟨r, rfl⟩ := v.step.elapsed hp hq'
    have hle := hset i d rest r a rfl hp ha ht
    rw [hu i] at hle
    exact hle
  · exact Nat.le_trans hle (sound.since i)

/-- In a plain run settling pauses last. -/
lemma Unhurried.settles {t : Timings} {e : Event ι} (h : Unhurried t.settling s) (hu : Uniform t s)
    (hp : Plain s e) : Settling s e := by
  intro i d rest r a he hprog ha ht
  have hle := h.pause i a d rest ha hprog ht
  have hnow := hp.punctual i d rest r he hprog
  rw [hu i]
  exact Nat.le_trans hle hnow

lemma Opening.timed (o : Opening lockPrefix timeout s) : Timed settling s := by
  refine ⟨?_, ?_⟩
  · intro i a ha
    rw [o.attempt_eq] at ha
    cases ha
  · rintro i a ⟨ha, -⟩
    rw [o.attempt_eq] at ha
    cases ha

variable [DecidableEq ι] {e : Event ι}

/-- Where nothing comes between a listing and the creation, the entries that are being created are
level with the clock. -/
lemma Indivisible.level (hi : Indivisible s e) (st : Step s e s') : Level s' := by
  intro j entry hp
  rcases st.cases with ⟨i, input, rfl, v⟩ | ⟨hne, v⟩
  · by_cases hj : j = i
    · rw [hj, v.step.since, v.reading, v.now]
    · rw [v.others j hj] at hp
      obtain ⟨input', he⟩ := hi.moving hp
      cases he
      exact absurd rfl hj
  · rw [v.members] at hp
    obtain ⟨input', rfl⟩ := hi.moving hp
    exact absurd rfl (hne j input')

/-- An entry that is level with the clock is created at once. -/
lemma Level.prompt (h : Level s) (st : Step s e s') : Prompt 0 s e := by
  rintro i input entry rfl hc
  rcases st.cases with ⟨j, input', he, v⟩ | ⟨hne, -⟩
  · cases he
    exact h i entry (v.step.pending_of_created hc)
  · exact absurd rfl (hne i input)

lemma Uniform.step {t : Timings} (h : Uniform t s) (sound : Sound lockPrefix timeout s)
    (st : Step s e s') : Uniform t s' := by
  intro j
  rcases st.cases with ⟨i, input, rfl, v⟩ | ⟨-, v⟩
  · by_cases hj : j = i
    · rw [hj, (v.advance sound.toParties).timings]
      exact h i
    · rw [v.others j hj]
      exact h j
  · rw [v.members]
    exact h j

lemma Step.lag (st : Step s e s') : s'.store.lag = s.store.lag := by
  rcases st.cases with ⟨i, input, rfl, v⟩ | ⟨-, v⟩
  · exact v.lag
  · exact v.lag

/-- The settling time is kept to. -/
lemma Timed.step {t : Timings} (h : Timed t.settling s) (sound : Sound lockPrefix timeout s)
    (hu : Uniform t s) (hset : Settling s e) (st : Step s e s') : Timed t.settling s' := by
  rcases st.cases with ⟨i, input, rfl, v⟩ | ⟨-, v⟩
  · have hnow := v.now
    refine ⟨?_, ?_⟩
    · intro j a ha hq
      by_cases hj : j = i
      · subst hj
        rw [v.step.since, v.reading]
        rcases v.step.queuing hq with ⟨hq', ha'⟩ | ⟨w, entry, b, r, rfl, ha', hp⟩
        · exact .inr (h.followed sound hu hset v (ha' a ha) hq' hq)
        · rw [ha'] at ha
          cases ha
          exact .inl ⟨⟨_, _, hp⟩, v.reading.symm⟩
      · rw [v.others j hj] at ha hq ⊢
        exact h.queuing j a ha hq
    · -- An entry is chosen only after it was ranked, so it had settled by then.
      intro j a hc
      rw [hnow]
      by_cases hj : j = i
      · subst hj
        rcases (v.advance sound.toParties).chosen a hc with hc | ⟨ha, hr, -⟩
        · exact h.chosen j a hc
        · exact Nat.le_trans (h.ranking ha hr) (sound.since j)
      · rw [v.others j hj] at hc
        exact h.chosen j a hc
  · refine ⟨?_, ?_⟩
    · rw [v.members]
      exact h.queuing
    · rw [v.members]
      exact fun j a hc => Nat.le_trans (h.chosen j a hc) v.now

/-- In a plain run no call has a limit, and no settling pause is cut. -/
lemma Unhurried.step {t : Timings} (h : Unhurried t.settling s) (sound : Sound lockPrefix timeout s)
    (hu : Uniform t s) (timed : Timed t.settling s) (hp : Plain s e) (st : Step s e s') :
    Unhurried t.settling s' := by
  have hset := h.settles hu hp
  rcases st.cases with ⟨i, input, rfl, v⟩ | ⟨-, v⟩
  · refine ⟨?_, ?_⟩
    · intro j limit hl
      by_cases hj : j = i
      · subst hj
        rcases v.step.limit hl with hl | ⟨r, rfl⟩
        · exact h.limit j limit hl
        · exact (hp.plain j _ rfl).1
      · rw [v.others j hj] at hl
        exact h.limit j limit hl
    · intro j a d rest ha hprog ht
      by_cases hj : j = i
      · subst hj
        have hq : (s'.members j).IsQueuing := by
          rw [Member.IsQueuing, hprog]
          trivial
        rcases v.step.queuing hq with ⟨hq', ha'⟩ | ⟨w, entry, b, r, rfl, ha', hprog'⟩
        · have hle := timed.followed sound hu hset v (ha' a ha) hq' hq
          rw [v.step.since, v.reading]
          lia
        · -- The window of the call has no limit, so the pause is the settling time.
          have hw : w.limit = none := by
            refine h.limit j w.limit ?_
            rw [Member.limit?, v.step.progress_of_answer]
            rfl
          rw [hprog'] at hprog
          cases hprog
          rw [← ht, hu j, Window.cut, hw]
          exact Nat.le_refl _
      · rw [v.others j hj] at ha hprog ht ⊢
        exact h.pause j a d rest ha hprog ht
  · refine ⟨?_, ?_⟩
    · rw [v.members]
      exact h.limit
    · rw [v.members]
      exact h.pause

variable {s₀ : Contest ι} {t : Timings} {allowed : Contest ι → Event ι → Prop}

/-- Where settling pauses last, every entry that is ranked or comes first has settled. -/
theorem Opening.settled (o : Opening lockPrefix timeout s₀) (hu : Uniform t s₀)
    (ha : ∀ s e, allowed s e → Unsaturated s e ∧ Settling s e) (run : Reaches allowed s₀ s) :
    Timed t.settling s ∧ Reaches (fun s e =>
      allowed s e ∧ Settled t.settling s ∧ s.store.lag = s₀.store.lag) s₀ s := by
  have start : Sound lockPrefix timeout s₀ ∧ Uniform t s₀ ∧ Timed t.settling s₀ ∧
      s₀.store.lag = s₀.store.lag := ⟨o.sound, hu, o.timed, rfl⟩
  have keep : ∀ s e s', (Sound lockPrefix timeout s ∧ Uniform t s ∧ Timed t.settling s ∧
      s.store.lag = s₀.store.lag) → allowed s e → Step s e s' →
      Sound lockPrefix timeout s' ∧ Uniform t s' ∧ Timed t.settling s' ∧
        s'.store.lag = s₀.store.lag := by
    rintro s e s' ⟨sound, hu, timed, hl⟩ hs st
    obtain ⟨hm, hset⟩ := ha s e hs
    exact ⟨sound.step hm st, hu.step sound st, timed.step sound hu hset st, st.lag.trans hl⟩
  refine ⟨(run.preserves start keep).2.2.1, run.refine (P := fun s => Sound lockPrefix timeout s ∧
    Uniform t s ∧ Timed t.settling s ∧ s.store.lag = s₀.store.lag) start ?_⟩
  rintro s e s' h hs st
  exact ⟨keep s e s' h hs st, hs, h.2.2.1.settled h.1, h.2.2.2⟩

/-- A plain run keeps listings and creations together and lets settling pauses last. -/
theorem Opening.plain (o : Opening lockPrefix timeout s₀) (hu : Uniform t s₀)
    (run : Reaches Plain s₀ s) : Reaches (fun s e =>
      Unsaturated s e ∧ Settling s e ∧ Prompt 0 s e ∧ Indivisible s e) s₀ s := by
  refine run.refine (P := fun s => Sound lockPrefix timeout s ∧ Uniform t s ∧
    Timed t.settling s ∧ Unhurried t.settling s ∧ Level s) ?_ ?_
  · refine ⟨o.sound, hu, o.timed, ⟨?_, ?_⟩, ?_⟩
    · intro i limit hl
      obtain ⟨owner, timings, strategy, -, -, -, hm⟩ := o.new i
      rw [hm] at hl
      cases hl
    · intro i a d rest ha
      rw [o.attempt_eq] at ha
      cases ha
    · intro i e he
      rw [o.pending?_eq] at he
      cases he
  · rintro s e s' ⟨sound, hu, timed, unhurried, level⟩ hp st
    have hset := unhurried.settles hu hp
    refine ⟨⟨sound.step hp.unsaturated st, hu.step sound st, timed.step sound hu hset st,
      unhurried.step sound hu timed hp st, hp.indivisible.level st⟩, ?_⟩
    exact ⟨hp.unsaturated, hset, level.prompt st, hp.indivisible⟩

/-- The fresh entries are in order in every run in which the times are as they should be. -/
theorem Opening.inOrder (o : Opening lockPrefix timeout s₀)
    (hlag : s₀.store.lag ≤ horizon) (hs : horizon + gap ≤ settling)
    (run : Reaches (fun s e =>
      Unsaturated s e ∧ Prompt gap s e ∧ Alone horizon s e ∧ Settled settling s) s₀ s) :
    Sound lockPrefix timeout s ∧ InOrder timeout horizon gap settling s ∧
      s.store.lag = s₀.store.lag := by
  refine run.preserves (P := fun s => Sound lockPrefix timeout s ∧
    InOrder timeout horizon gap settling s ∧ s.store.lag = s₀.store.lag) ?_ ?_
  · refine ⟨o.sound, ⟨?_, ?_, ?_⟩, rfl⟩
    · intro i j e b _ he
      rw [o.pending?_eq] at he
      cases he
    · intro i j a b _ ha
      rw [Fresh, o.attempt_eq] at ha
      cases ha.1
    · intro i j a b _ ha
      rw [Fresh, o.attempt_eq] at ha
      cases ha.1
  · rintro s e s' ⟨sound, h, hl⟩ ⟨hu, hg, ha, hset⟩ st
    refine ⟨sound.step hu st, ?_⟩
    rcases st.cases with ⟨i, input, rfl, v⟩ | ⟨-, v⟩
    · rw [← hl] at hlag
      exact ⟨h.moves sound hset v hlag hs (fun e => hg i input e rfl) (fun e => ha i input e rfl),
        v.lag.trans hl⟩
    · exact ⟨h.rests v, v.lag.trans hl⟩

end StoreLock.Contest
