import StoreLock.Proofs.Lock.History

/-!
# The shortest call

What a lock does that nothing disturbs: it creates its entry behind the queue it is shown
(`Lock.entered`), pauses, and ranks the entry in the next listing (`Member.poll`). If that comes
first, it holds the lock (`Lock.won`).
-/

namespace StoreLock

/-- What a member reads that is not disturbed. -/
def Reading.calm (now : Instant) : Reading :=
  ⟨now, 0, false⟩

namespace Lock

variable {l : Lock} {a : Attempt} {listed : List String} {now : Instant}

/-- An entry that is listed comes first if no listed entry comes before it or has been seen for
longer than the timeout, and then there is nothing to reclaim. -/
lemma standing_eq_first (ha : a.entry.name ∈ listed) (hq : l.queued? a.entry.name = some a.entry)
    (hle : ∀ n ∈ listed, ∀ e, l.queued? n = some e → a.entry.le e = true)
    (hseen : ∀ n first, (n, first) ∈ l.sightings.firstSeen → now ≤ first + l.timings.timeout) :
    l.standing a listed now = .first ∧ l.stale a.entry listed now = [] := by
  have kept (n : String) : l.isReclaimable a.entry now n = false := by
    rw [← Bool.not_eq_true, isReclaimable, Bool.and_eq_true]
    rintro ⟨-, hs⟩
    obtain ⟨first, hf, hlt⟩ := Sightings.mem_of_isStale hs
    have hle := hseen n first hf
    lia
  have mem (e : Entry) : e ∈ l.eligible a.entry listed now ↔
      ∃ n ∈ listed, l.queued? n = some e := by
    simp [eligible, kept]
  refine ⟨?_, ?_⟩
  · have hown : a.entry ∈ l.eligible a.entry listed now := (mem _).mpr ⟨_, ha, hq⟩
    have hall : (l.eligible a.entry listed now).all (a.entry.le ·) = true := by
      rw [List.all_eq_true]
      intro e he
      obtain ⟨n, hn, hq'⟩ := (mem e).mp he
      exact hle n hn e hq'
    rw [standing, if_pos hown, if_pos hall]
  · simp [stale, kept]

/-- The lock of a call that has created its entry behind a listing. -/
def entered (l : Lock) (listed : List String) (now : Instant) : Lock :=
  let known := { l with state := .acquiring }.observe listed now
  { known with
    sequencer := (known.sequencer.next 0).2
    attempt := some ⟨⟨l.lockPrefix, (known.sequencer.next 0).1, l.owner⟩, now⟩ }

/-- The lock of a call that has seen its entry come first. -/
def won (l : Lock) (listed : List String) (now : Instant) : Lock :=
  { l.observe listed now with state := .held }

end Lock

namespace Member

variable {l : Lock} {limit : WaitLimit} {listed listed' : List String} {e : Entry}
  {now late since : Instant} {progress : Option Lock.Progress}

/-- The steps of a call that creates its entry `e` behind a listing at `now`, and ranks it in another
at `late`. -/
def poll (l : Lock) (limit : WaitLimit) (listed listed' : List String) (e : Entry)
    (now late : Instant) : List Taken :=
  let w : Window := ⟨now, limit⟩
  let known := { l with state := .acquiring }.observe listed now
  let entered := l.entered listed now
  let contents := (⟨l.owner.text, e.sequence, 0⟩ : Marker).contents
  [⟨.answer (.ranking w) (.ok listed') (.calm late),
      ofTurn (entered.judge w listed' (.calm late)) late⟩,
    ⟨.wake .elapsed (.calm late), ⟨entered, some (.request (.ranking w)), late⟩⟩,
    ⟨.answer (.creating w e contents) (.ok ()) (.calm now),
      ⟨entered, some (.pause (w.cut now l.timings.settling) ⟨w⟩), now⟩⟩,
    ⟨.answer (.seeding w) (.ok listed) (.calm now),
      ⟨{ known with sequencer := (known.sequencer.next 0).2 },
        some (.request (.creating w e contents)), now⟩⟩,
    ⟨.acquire limit (.calm now),
      ⟨{ l with state := .acquiring }, some (.request (.seeding w)), now⟩⟩]

lemma isCall_poll : IsCall limit now (poll l limit listed listed' e now late) := by
  refine .goesOn (.goesOn (.goesOn (.goesOn (.begins rfl rfl) ?_) ?_) ?_) ?_ <;> exact trivial

/-- What the call comes to is what ranking the entry does. -/
lemma after_poll {m : Member} : m.after (poll l limit listed listed' e now late) =
    ofTurn ((l.entered listed now).judge ⟨now, limit⟩ listed' (.calm late)) late :=
  rfl

/-- A call whose entry comes first, with nothing to reclaim, ends with the lock held. -/
lemma after_poll_of_first {m : Member} (he : (l.entered listed now).attempt = some ⟨e, now⟩)
    (hfirst : ((l.entered listed now).observe listed' late).standing ⟨e, now⟩ listed' late = .first)
    (hstale : ((l.entered listed now).observe listed' late).stale e listed' late = []) :
    m.after (poll l limit listed listed' e now late) =
      ⟨(l.entered listed now).won listed' late, some (.done .acquired), late⟩ := by
  rw [after_poll, Lock.judge, he]
  change ofTurn (((l.entered listed now).observe listed' late).reclaim _
    (((l.entered listed now).observe listed' late).standing ⟨e, now⟩ listed' late)
    (((l.entered listed now).observe listed' late).stale e listed' late) _) late = _
  rw [hfirst, hstale]
  rfl

lemma Step.answered {m m' : Member} {phase : Lock.Phase} {answer : phase.request.Answer}
    {r : Reading} (hp : m.progress = some (.request phase))
    (hm' : ofTurn (m.lock.resume phase answer r) r.now = m') :
    m.Step (.answer phase answer r) m' := by
  rw [← hm']
  exact .answer hp

/-- An idle lock can make this call. -/
lemma history_poll (hidle : l.state = .idle)
    (he : (l.entered listed now).attempt = some ⟨e, now⟩)
    (hlate : now + (⟨now, limit⟩ : Window).cut now l.timings.settling ≤ late) :
    History Punctual { lock := l } (poll l limit listed listed' e now late) := by
  have hseq : e = ⟨l.lockPrefix,
      (({ l with state := .acquiring }.observe listed now).sequencer.next 0).1, l.owner⟩ := by
    cases he
    rfl
  have st₁ : Step { lock := l } (.acquire limit (.calm now))
      ⟨{ l with state := .acquiring }, some (.request (.seeding ⟨now, limit⟩)), now⟩ := by
    have hacq : ofTurn (l.acquire limit (.calm now)) now =
        ⟨{ l with state := .acquiring }, some (.request (.seeding ⟨now, limit⟩)), now⟩ := by
      simp [Lock.acquire, hidle, Lock.start, Reading.calm, ofTurn]
    rw [← hacq]
    exact .acquire trivial
  refine .cons (.cons (.cons (.cons (.cons .nil ?_ st₁) ?_ ?_) ?_ ?_) ?_ ?_) ?_ ?_
  · refine ⟨Nat.zero_le _, ?_⟩
    rintro _ _ _ ⟨⟩
  · refine ⟨Nat.le_refl _, ?_⟩
    rintro _ _ _ ⟨⟩
  · refine .answered rfl ?_
    simp [Lock.resume, Lock.register, Reading.calm, ofTurn, hseq]
  · refine ⟨Nat.le_refl _, ?_⟩
    rintro _ _ _ ⟨⟩
  · refine .answered rfl ?_
    have ht : ({ l with state := .acquiring }.observe listed now).timings = l.timings := by
      simp
    simp only [after_cons, Lock.resume, Lock.pause, Reading.calm, ofTurn, Bool.false_eq_true,
      if_false, Lock.entered, ← hseq, ht]
  · refine ⟨?_, ?_⟩
    · exact Nat.le_trans (Nat.le_add_right _ _) hlate
    · rintro d rest r hp hi
      cases hp
      cases hi
      exact hlate
  · have hwake : ofTurn ((l.entered listed now).wake ⟨⟨now, limit⟩⟩ .elapsed (.calm late)) late =
        ⟨l.entered listed now, some (.request (.ranking ⟨now, limit⟩)), late⟩ := by
      simp [Lock.wake, he, ofTurn]
    rw [← hwake]
    exact .wake rfl
  · refine ⟨Nat.le_refl _, ?_⟩
    rintro _ _ _ ⟨⟩
  · exact .answered rfl rfl

/-- A new lock that nobody else wants is taken with a call that ranks its entry as soon as its settling
pause is over. -/
lemma exists_alone (limit : WaitLimit) (late : Instant)
    (hlate : (⟨0, limit⟩ : Window).cut 0 Timings.recommended.settling ≤ late) :
    ∃ l e, Lock.create "p" ⟨"a"⟩ .recommended .counter = .ok l ∧
      (Entry.read e.name = .ok e ∧ e.lockPrefix = "p" ∧ e.owner = ⟨"a"⟩) ∧
      (l.entered [] 0).attempt = some ⟨e, 0⟩ ∧
      ((l.entered [] 0).observe [e.name] late).standing ⟨e, 0⟩ [e.name] late = .first ∧
      History Punctual { lock := l } (poll l limit [] [e.name] e 0 late) ∧
      after { lock := l } (poll l limit [] [e.name] e 0 late) =
        ⟨(l.entered [] 0).won [e.name] late, some (.done .acquired), late⟩ := by
  let e : Entry := ⟨"p", 0, ⟨"a"⟩⟩
  obtain ⟨l, hl, hidle, hsettling, he, hnone, hq, hread⟩ :
      ∃ l, Lock.create "p" ⟨"a"⟩ .recommended .counter = .ok l ∧ l.state = .idle ∧
        l.timings.settling = Timings.recommended.settling ∧
        (l.entered [] 0).attempt = some ⟨e, 0⟩ ∧
        (l.entered [] 0).sightings.firstSeen = [] ∧ (l.entered [] 0).queued? e.name = some e ∧
        Entry.read e.name = .ok e ∧ e.lockPrefix = "p" ∧ e.owner = ⟨"a"⟩ := by
    refine ⟨⟨"p", ⟨"a"⟩, .recommended, { strategy := .counter }, {}, .idle, none⟩, ?_⟩
    decide +kernel
  -- From here on the entry is opaque: what is to be computed with its name has been.
  clear_value e
  obtain ⟨hfirst, hstale⟩ : ((l.entered [] 0).observe [e.name] late).standing ⟨e, 0⟩ [e.name] late =
      .first ∧ ((l.entered [] 0).observe [e.name] late).stale e [e.name] late = [] := by
    refine Lock.standing_eq_first (a := ⟨e, 0⟩) List.mem_cons_self ?_ ?_ ?_
    · rw [Lock.observe_queued?]
      exact hq
    · intro n hn e' he'
      cases List.mem_singleton.mp hn
      rw [Lock.observe_queued?, hq] at he'
      cases he'
      exact Entry.le_refl e
    · intro n first hf
      obtain ⟨-, hf | rfl⟩ := Lock.mem_sightings_observe hf
      · rw [hnone] at hf
        cases hf
      · exact Nat.le_add_right _ _
  refine ⟨l, e, hl, hread, he, hfirst, history_poll hidle he ?_, after_poll_of_first he hfirst hstale⟩
  rw [Nat.zero_add, hsettling]
  exact hlate

end Member

end StoreLock
