import StoreLock.Proofs.Contest.Rivals

/-!
# Mutual exclusion

At no time do two members hold their locks with fresh entries. In a store without lag this needs no
settling time, as long as nothing comes between a listing and the creation behind it
(`exclusive_of_no_lag`). In a store with lag, and with the calls of all members interleaved, it needs
a settling time of more than twice the lag and the gap between a listing and its creation
(`exclusive_of_settling`).

A member that holds a fresh entry has chosen it, and the bound on how two chosen entries overlap
leaves no room for two of them (`InOrder.eq_of_holdsFresh`). What is left for each theorem is to
derive the times of the run from what it is allowed to do.
-/

namespace StoreLock.Contest

variable {ι : Type} {s s₀ : Contest ι} {lockPrefix : String} {timeout : Duration} {i j : ι}

/-- A member that holds its lock has chosen a fresh entry. -/
lemma HoldsFresh.exists_chosen (h : s.HoldsFresh timeout i) :
    ∃ a, s.Fresh timeout i a ∧ (s.members i).Chooses a := by
  obtain ⟨hs, a, ha, hle⟩ := h
  have hfresh : s.now ≤ a.createdAt + timeout := by
    lia
  exact ⟨a, ⟨ha, hfresh⟩, ha, .inl hs⟩

/-- Where chosen entries would have to be farther apart than any two can be, at most one member holds
its lock with a fresh entry. -/
lemma InOrder.eq_of_holdsFresh {horizon gap settling : Duration}
    (order : InOrder timeout horizon gap settling s) (sound : Sound lockPrefix timeout s)
    (hlag : s.store.lag ≤ settling) (hs : s.store.lag + horizon + gap ≤ settling + 1)
    (hi : s.HoldsFresh timeout i) (hj : s.HoldsFresh timeout j) : i = j := by
  obtain ⟨a, ha, hca⟩ := hi.exists_chosen
  obtain ⟨b, hb, hcb⟩ := hj.exists_chosen
  by_contra hne
  rcases order.overlap sound hlag hne ha hb hca hcb with ⟨h, h'⟩ | ⟨h, h'⟩
  · lia
  · lia

variable [DecidableEq ι]

/-- Without lag, at most one member holds its lock with a fresh entry: in every run in which nothing
comes between a listing and the creation behind it and no sequence is the largest. -/
theorem exclusive_of_no_lag (o : Opening lockPrefix timeout s₀) (hlag : s₀.store.lag = 0)
    (run : Reaches (fun s e => Unsaturated s e ∧ Indivisible s e) s₀ s)
    (hi : s.HoldsFresh timeout i) (hj : s.HoldsFresh timeout j) : i = j := by
  -- No time passes between a listing and the creation behind it.
  have run' : Reaches (fun s e =>
      Unsaturated s e ∧ Prompt 0 s e ∧ Alone 0 s e ∧ Settled 0 s) s₀ s := by
    refine run.refine (P := fun s => Sound lockPrefix timeout s ∧ Level s) ?_ ?_
    · refine ⟨o.sound, ?_⟩
      intro k e he
      rw [o.pending?_eq] at he
      cases he
    · rintro s e s' ⟨sound, level⟩ ⟨hm, hind⟩ st
      exact ⟨⟨sound.step hm st, hind.level st⟩, hm, level.prompt st, hind.alone,
        sound.settled_zero⟩
  obtain ⟨sound, order, hl⟩ := o.inOrder (by lia) (Nat.le_refl _) run'
  exact order.eq_of_holdsFresh sound (by lia) (by lia) hi hj

/-- The first of two rivals holds its lock, and the other, which has created an entry too, does not. -/
theorem rivals_exclusive_of_no_lag : ∃ s, Opening "p" Timings.recommended.timeout
      (rivals 0 .recommended) ∧ (rivals 0 .recommended).store.lag = 0 ∧
      Reaches (fun s e => Unsaturated s e ∧ Indivisible s e) (rivals 0 .recommended) s ∧
      s.HoldsFresh Timings.recommended.timeout true ∧
      (∃ a, (s.members false).lock.attempt = some a) ∧
      ¬ s.HoldsFresh Timings.recommended.timeout false := by
  have o : Opening "p" Timings.recommended.timeout (rivals 0 .recommended) := opening_rivals rfl
  obtain ⟨s, run, hheld, ha⟩ := exists_held 0 .recommended (by decide) (by decide)
  have run' : Reaches (fun s e => Unsaturated s e ∧ Indivisible s e) (rivals 0 .recommended) s :=
    run.mono fun _ _ h => ⟨h.unsaturated, h.indivisible⟩
  refine ⟨s, o, rfl, run', hheld, ⟨_, ha⟩, ?_⟩
  intro h
  cases exclusive_of_no_lag o rfl run' hheld h

/-- With lag, at most one member holds its lock with a fresh entry: in every run of single calls in
which an entry is created no later than `gap` after the queue was listed for it, settling pauses last
more than twice the lag and the gap, and no sequence is the largest. -/
theorem exclusive_of_settling {t : Timings} {gap : Duration} (o : Opening lockPrefix t.timeout s₀)
    (hu : Uniform t s₀) (hs : 2 * s₀.store.lag + gap < t.settling)
    (run : Reaches (fun s e => Unsaturated s e ∧ Settling s e ∧ Prompt gap s e) s₀ s)
    (hi : s.HoldsFresh t.timeout i) (hj : s.HoldsFresh t.timeout j) : i = j := by
  obtain ⟨-, run'⟩ := o.settled hu (fun _ _ h => ⟨h.1, h.2.1⟩) run
  -- A listing misses nothing that was created more than the lag before it.
  have run'' : Reaches (fun s e => Unsaturated s e ∧ Prompt gap s e ∧
      Alone (s₀.store.lag + 1) s e ∧ Settled t.settling s) s₀ s := by
    refine run'.mono ?_
    rintro s e ⟨⟨hm, -, hg⟩, hset, hl⟩
    refine ⟨hm, hg, ?_, hset⟩
    rintro k input entry - -
    exact .inl (by lia)
  obtain ⟨sound, order, hl⟩ := o.inOrder (by lia) (by lia) run''
  exact order.eq_of_holdsFresh sound (by lia) (by lia) hi hj

/-- A lag of one second and a gap of two need a settling time of more than four: with five, the first
of two rivals holds its lock, and the other, which has created an entry too, does not. -/
theorem rivals_exclusive_of_settling : ∃ s, Opening "p" Timings.recommended.timeout
      (rivals (.ofParts 1 0) .recommended) ∧
      Uniform .recommended (rivals (.ofParts 1 0) .recommended) ∧
      2 * (rivals (.ofParts 1 0) .recommended).store.lag + .ofParts 2 0 <
        Timings.recommended.settling ∧
      Reaches (fun s e => Unsaturated s e ∧ Settling s e ∧ Prompt (.ofParts 2 0) s e)
        (rivals (.ofParts 1 0) .recommended) s ∧
      s.HoldsFresh Timings.recommended.timeout true ∧
      (∃ a, (s.members false).lock.attempt = some a) ∧
      ¬ s.HoldsFresh Timings.recommended.timeout false := by
  have o : Opening "p" Timings.recommended.timeout (rivals (.ofParts 1 0) .recommended) :=
    opening_rivals rfl
  have hs : 2 * (rivals (.ofParts 1 0) .recommended).store.lag + .ofParts 2 0 <
      Timings.recommended.settling := by decide
  obtain ⟨s, run, hheld, ha⟩ :=
    exists_held (.ofParts 1 0) .recommended (by decide) (by decide)
  have run' : Reaches (fun s e => Unsaturated s e ∧ Settling s e ∧ Prompt (.ofParts 2 0) s e)
      (rivals (.ofParts 1 0) .recommended) s := by
    refine (o.plain uniform_rivals run).mono ?_
    rintro s e ⟨hm, hset, hg, -⟩
    exact ⟨hm, hset, fun i input entry he hc => Nat.le_add_right_of_le (hg i input entry he hc)⟩
  refine ⟨s, o, uniform_rivals, hs, run', hheld, ⟨_, ha⟩, ?_⟩
  intro h
  cases exclusive_of_settling o uniform_rivals hs run' hheld h

end StoreLock.Contest
