import StoreLock.Proofs.Lock.Advance

/-!
# What a lock deletes

A lock deletes its own entries, and others' only after it has seen them in every listing for longer
than the timeout. What it has seen is written in the inputs of its run: `listings` are the listings it
received, and `Longstanding` says of a name that it stood in the last of them and in all since one
that is more than the timeout older.

`Recorded` ties what a member remembers to this history, and each step preserves it. A name that is
being deleted was judged by the last listing, since a call that waits for a listing has nothing to
delete (`Step.doomed_eq_nil`).
-/

namespace StoreLock

/-- The listings that were received, each with the time at which it was, the latest first. -/
def listings (inputs : List Input) : List (Instant × List String) :=
  inputs.filterMap fun input => input.listing?.map (input.reading.now, ·)

/-- Whether a name has stood in every listing since one that was received at `first`. -/
def StandsSince (inputs : List Input) (n : String) (first : Instant) : Prop :=
  ∃ newer listed older, listings inputs = newer ++ (first, listed) :: older ∧ n ∈ listed ∧
    ∀ p ∈ newer, n ∈ p.2

/-- Whether a name stands in the last listing and in all since one that was received more than the
timeout before. -/
def Longstanding (timeout : Duration) (inputs : List Input) (n : String) : Prop :=
  ∃ now last newer first listed older,
    listings inputs = (now, last) :: newer ++ (first, listed) :: older ∧
      n ∈ last ∧ (∀ p ∈ newer, n ∈ p.2) ∧ n ∈ listed ∧ first + timeout < now

/-- Whether the inputs tell that an entry was created. -/
def HasCreated (inputs : List Input) (e : Entry) : Prop :=
  ∃ input ∈ inputs, input.created? = some e

variable {inputs : List Input} {input : Input} {n : String}

lemma HasCreated.cons {e : Entry} (h : HasCreated inputs e) : HasCreated (input :: inputs) e := by
  obtain ⟨input', hi, hc⟩ := h
  exact ⟨input', List.mem_cons_of_mem _ hi, hc⟩

lemma listings_cons_none (h : input.listing? = none) :
    listings (input :: inputs) = listings inputs := by
  simp [listings, h]

lemma listings_cons_some {listed : List String} (h : input.listing? = some listed) :
    listings (input :: inputs) = (input.reading.now, listed) :: listings inputs := by
  simp [listings, h]

/-- A name that is listed again stands on. -/
lemma StandsSince.cons {first : Instant} (h : StandsSince inputs n first)
    (hn : ∀ listed, input.listing? = some listed → n ∈ listed) :
    StandsSince (input :: inputs) n first := by
  obtain ⟨newer, listed, older, he, hl, hall⟩ := h
  cases hi : input.listing? with
  | none =>
    rw [← listings_cons_none hi] at he
    exact ⟨newer, listed, older, he, hl, hall⟩
  | some last =>
    refine ⟨(input.reading.now, last) :: newer, listed, older, ?_, hl, ?_⟩
    · rw [listings_cons_some hi, he]
      rfl
    · intro p hp
      rcases List.mem_cons.mp hp with rfl | hp
      · exact hn last hi
      · exact hall p hp

/-- A name that was listed more than the timeout before, and is listed again, is longstanding. -/
lemma StandsSince.longstanding {first : Instant} {timeout : Duration} {listed : List String}
    (h : StandsSince inputs n first) (hi : input.listing? = some listed) (hn : n ∈ listed)
    (hlt : first + timeout < input.reading.now) : Longstanding timeout (input :: inputs) n := by
  obtain ⟨newer, listed', older, he, hl, hall⟩ := h
  refine ⟨input.reading.now, listed, newer, first, listed', older, ?_, hn, hall, hl, hlt⟩
  rw [listings_cons_some hi, he]
  rfl

lemma Longstanding.cons {timeout : Duration} (h : Longstanding timeout inputs n)
    (hi : input.listing? = none) : Longstanding timeout (input :: inputs) n := by
  rw [Longstanding, listings_cons_none hi]
  exact h

namespace Member

/-- A name is one that a lock of this prefix and timeout may delete: that of an entry it created, or
of an entry of its prefix that is longstanding. -/
def Deletable (lockPrefix : String) (timeout : Duration) (inputs : List Input) (n : String) : Prop :=
  (∃ e, HasCreated inputs e ∧ n = e.name) ∨
    ((∃ e, Entry.read n = .ok e ∧ e.lockPrefix = lockPrefix) ∧ Longstanding timeout inputs n)

/-- What a member remembers is what its inputs told. -/
structure Recorded (lockPrefix : String) (timeout : Duration) (owner : OwnerId)
    (inputs : List Input) (m : Member) : Prop where
  coherent : m.Coherent
  prefix_eq : m.lock.lockPrefix = lockPrefix
  timeout_eq : m.lock.timings.timeout = timeout
  owner_eq : m.lock.owner = owner
  pending : ∀ e, m.pending? = some e → e.lockPrefix = lockPrefix ∧ e.owner = owner
  created : ∀ e, HasCreated inputs e → e.lockPrefix = lockPrefix ∧ e.owner = owner
  attempt : ∀ a, m.lock.attempt = some a → HasCreated inputs a.entry
  sighting : ∀ n first, (n, first) ∈ m.lock.sightings.firstSeen → StandsSince inputs n first
  doomed : ∀ n ∈ m.doomed, Deletable lockPrefix timeout inputs n

variable {m m' : Member} {lockPrefix : String} {timeout : Duration} {owner : OwnerId}

/-- A call that waits for a listing has nothing to delete. -/
lemma Step.doomed_eq_nil (st : Step m input m') {listed : List String}
    (hi : input.listing? = some listed) : m.doomed = [] := by
  cases input with
  | answer phase answer r =>
    rw [doomed, st.progress_of_answer]
    cases phase with
    | seeding w => rfl
    | ranking w => rfl
    | _ => cases hi
  | _ => cases hi

/-- What a member is asked to delete is among the names it is deleting. -/
lemma mem_doomed {phase : Lock.Phase} (hp : m.progress = some (.request phase))
    (hd : phase.request = .delete n) : n ∈ m.doomed := by
  rw [doomed, hp]
  cases phase <;> cases hd <;> exact List.mem_cons_self

namespace Recorded

/-- The names that a step leaves to be deleted may be deleted. -/
lemma doomed_step (h : Recorded lockPrefix timeout owner inputs m) (st : Step m input m')
    (ad : Advance m input m') (hn : n ∈ m'.doomed) :
    Deletable lockPrefix timeout (input :: inputs) n := by
  rcases ad.doomed n hn with hn | ⟨listed, e, first, hi, hl, hq, hf, hlt⟩ | ⟨-, hown⟩
  · cases hi : input.listing? with
    | none =>
      rcases h.doomed n hn with ⟨e, hc, he⟩ | ⟨hr, hlong⟩
      · exact .inl ⟨e, hc.cons, he⟩
      · exact .inr ⟨hr, hlong.cons hi⟩
    | some listed =>
      rw [st.doomed_eq_nil hi] at hn
      cases hn
  · rw [h.timeout_eq] at hlt
    rw [Lock.queued?_eq_some, h.prefix_eq] at hq
    exact .inr ⟨⟨e, hq⟩, (h.sighting n first hf).longstanding hi hl hlt⟩
  · rcases hown with ⟨a, ha, rfl⟩ | ⟨e, hc, rfl⟩
    · exact .inl ⟨a.entry, (h.attempt a ha).cons, rfl⟩
    · exact .inl ⟨e, ⟨input, List.mem_cons_self, hc⟩, rfl⟩

/-- A step adds its input to the record. -/
theorem step (h : Recorded lockPrefix timeout owner inputs m) (st : Step m input m') :
    Recorded lockPrefix timeout owner (input :: inputs) m' := by
  have ad := st.advance h.coherent
  refine ⟨st.coherent h.coherent, ?_, ?_, ?_, ?_, ?_, ?_, ?_, ?_⟩
  · rw [ad.lockPrefix]
    exact h.prefix_eq
  · rw [ad.timings]
    exact h.timeout_eq
  · rw [ad.owner]
    exact h.owner_eq
  · intro e he
    have d := ad.pending e he
    exact ⟨d.lockPrefix.trans h.prefix_eq, d.owner.trans h.owner_eq⟩
  · rintro e ⟨input', hi, hc⟩
    rcases List.mem_cons.mp hi with rfl | hi
    · exact h.pending e (st.pending_of_created hc)
    · exact h.created e ⟨input', hi, hc⟩
  · intro a ha
    rcases ad.attempt a ha with ha | ⟨hc, -⟩
    · exact (h.attempt a ha).cons
    · exact ⟨input, List.mem_cons_self, hc⟩
  · intro n first hf
    rcases ad.sighting n first hf with hf' | ⟨rfl, listed, hi, hn⟩
    · exact (h.sighting n first hf').cons fun listed hi => ad.shown n first listed hf hi
    · exact ⟨[], listed, listings inputs, listings_cons_some hi, hn, nofun⟩
  · exact fun n hn => h.doomed_step st ad hn

end Recorded

/-- In every run of a lock, what it remembers is what its inputs told. -/
theorem Run.recorded {l : Lock} {timings : Timings} {strategy : Strategy}
    (hl : Lock.create lockPrefix owner timings strategy = .ok l)
    (run : Run { lock := l } inputs m) : Recorded lockPrefix timings.timeout owner inputs m := by
  induction run with
  | nil =>
    obtain ⟨rfl, -, -⟩ := Lock.eq_of_create hl
    refine ⟨⟨nofun, nofun⟩, rfl, rfl, rfl, nofun, ?_, nofun, ?_, ?_⟩
    · rintro e ⟨input, hi, -⟩
      cases hi
    · intro n first hf
      cases hf
    · intro n hn
      cases hn
  | cons _ st ih => exact ih.step st

/-- In every run of a lock, whatever it asks the store to delete is an entry that it has created
itself, or an entry of its prefix that stands in the last listing it received and in all since one
that it received more than the timeout before. If its owner is accepted, it is an entry of its prefix
in either case. -/
theorem Run.deletable {l : Lock} {timings : Timings} {strategy : Strategy} {phase : Lock.Phase}
    (hl : Lock.create lockPrefix owner timings strategy = .ok l)
    (run : Run { lock := l } inputs m) (hp : m.progress = some (.request phase))
    (hd : phase.request = .delete n) :
    Deletable lockPrefix timings.timeout inputs n ∧
      (OwnerId.accepts owner.text = true →
        ∃ e, Entry.read n = .ok e ∧ e.lockPrefix = lockPrefix) := by
  have h := run.recorded hl
  have hdel := h.doomed n (mem_doomed hp hd)
  refine ⟨hdel, ?_⟩
  intro ho
  rcases hdel with ⟨e, hc, rfl⟩ | ⟨hr, -⟩
  · obtain ⟨hpre, hown⟩ := h.created e hc
    obtain ⟨-, hne, -⟩ := Lock.eq_of_create hl
    refine ⟨e, Entry.read_name ⟨?_, ?_⟩, hpre⟩
    · rw [hpre]
      exact hne
    · rw [hown]
      exact ho
  · exact hr

/-- A lock that has seen another's entry for a second more than the timeout asks the store to delete
it, which it has not created itself. -/
theorem deletes_longstanding : ∃ l inputs m phase,
    Lock.create "p" ⟨"a"⟩ .recommended .counter = .ok l ∧ Run { lock := l } inputs m ∧
      m.progress = some (.request phase) ∧
      phase.request = .delete "p_00000000000000000007_b" ∧
      (¬ ∃ e, HasCreated inputs e ∧ "p_00000000000000000007_b" = e.name) ∧
      Longstanding Timings.recommended.timeout inputs "p_00000000000000000007_b" ∧
      OwnerId.accepts "a" = true ∧
      ∃ e, Entry.read "p_00000000000000000007_b" = .ok e ∧ e.lockPrefix = "p" := by
  let l : Lock := ⟨"p", ⟨"a"⟩, .recommended, { strategy := .counter }, {}, .idle, none⟩
  have hl : Lock.create "p" ⟨"a"⟩ .recommended .counter = .ok l := by
    decide +kernel
  let w : Window := ⟨0, none⟩
  let early : Reading := ⟨0, 0, false⟩
  let late : Reading := ⟨901000000000, 0, false⟩
  let other := "p_00000000000000000007_b"
  let listed := [other, "p_00000000000000000008_a"]
  let own : Entry := ⟨"p", 8, ⟨"a"⟩⟩
  -- It lists the queue, creates its entry behind it, pauses, and lists the queue again.
  let m₁ := ofTurn (l.acquire none early) 0
  let m₂ := ofTurn (m₁.lock.resume (.seeding w) (.ok [other]) early) 0
  let known : Lock := { m₂.lock with attempt := some ⟨own, 0⟩ }
  let m₃ : Member := ⟨known, some (.pause m₂.lock.timings.settling ⟨w⟩), 0⟩
  let m₄ : Member := ⟨known, some (.request (.ranking w)), late.now⟩
  have hdrawn : m₂.pending? = some own := by
    decide +kernel
  have hstale : (known.observe listed late.now).stale own listed late.now = [other] := by
    decide +kernel
  obtain ⟨e, contents, hp₂⟩ : ∃ e contents,
      m₂.progress = some (.request (.creating w e contents)) := ⟨_, _, rfl⟩
  obtain rfl : e = own := by
    rw [pending?, hp₂] at hdrawn
    exact Option.some.inj hdrawn
  have st₁ : Step { lock := l } (.acquire none early) m₁ := .acquire trivial
  have st₂ : Step m₁ (.answer (.seeding w) (.ok [other]) early) m₂ := .answer rfl
  have st₃ : Step m₂ (.answer (.creating w own contents) (.ok ()) early) m₃ := .answer hp₂
  have st₄ : Step m₃ (.wake .elapsed late) m₄ := .wake rfl
  let seen := known.observe listed late.now
  let standing := seen.standing ⟨own, 0⟩ listed late.now
  let m₅ : Member := ⟨seen, some (.request (.reclaiming w standing other [])), late.now⟩
  have hjudge : known.judge w listed late = (seen, .request (.reclaiming w standing other [])) := by
    change seen.reclaim w standing (seen.stale own listed late.now) late = _
    rw [hstale]
    rfl
  have st₅ : Step m₄ (.answer (.ranking w) (.ok listed) late) m₅ := by
    have st : Step m₄ (.answer (.ranking w) (.ok listed) late)
        (ofTurn (known.judge w listed late) late.now) := .answer rfl
    rw [hjudge] at st
    exact st
  have run := ((((Run.nil.cons st₁).cons st₂).cons st₃).cons st₄).cons st₅
  have hread : Entry.read other = .ok ⟨"p", 7, ⟨"b"⟩⟩ := by
    decide +kernel
  have h := run.recorded hl
  have haccepts : OwnerId.accepts "a" = true := by
    decide +kernel
  obtain ⟨hdel, hown⟩ := run.deletable hl rfl rfl
  generalize hin : (_ :: _ : List Input) = inputs at run h hdel
  -- What it created carries its own owner, and the name it deletes does not.
  have hnot : ¬ ∃ e, HasCreated inputs e ∧ other = e.name := by
    rintro ⟨e, hc, he⟩
    obtain ⟨hpre, howner⟩ := h.created e hc
    have hp : e.Proper := by
      refine ⟨?_, ?_⟩
      · rw [hpre]
        decide
      · rw [howner]
        exact haccepts
    rw [he, Entry.read_name hp] at hread
    cases hread
    exact absurd howner (by decide)
  exact ⟨l, inputs, m₅, _, hl, run, rfl, rfl, hnot, (hdel.resolve_left hnot).2, haccepts,
    hown haccepts⟩

end Member

end StoreLock
