import StoreLock.Proofs.Contest.Exclusion

/-!
# How much settling is enough

A settling time that covers the lag does not keep two locks apart. The entry that is created second
may come first, by its owner, and it is shown to nobody before the lag has passed: if that is after
the first lock has ranked its own entry, both are held. The second lock begins some `delay` after the
first, too soon to be shown the first's entry (`delay < lag`) and too late to be shown to it
(`settling < delay + lag`), and both are fresh when it is held (`delay + settling ≤ timeout`). Where
there is such a delay both locks can be held, and otherwise they cannot (`exclusive_iff`).
-/

namespace StoreLock.Contest

/-- Two members that hold fresh entries in a plain run created them so far apart that the first was
not shown to the second, and the second not to the first. -/
theorem exists_delay {ι : Type} [DecidableEq ι] {s s₀ : Contest ι} {lockPrefix : String}
    {t : Timings} {i j : ι} (o : Opening lockPrefix t.timeout s₀) (hu : Uniform t s₀)
    (hlag : s₀.store.lag ≤ t.settling) (run : Reaches Plain s₀ s) (hne : i ≠ j)
    (hi : s.HoldsFresh t.timeout i) (hj : s.HoldsFresh t.timeout j) :
    ∃ delay, delay < s₀.store.lag ∧ t.settling < delay + s₀.store.lag ∧
      delay + t.settling ≤ t.timeout := by
  obtain ⟨timed, run'⟩ := o.settled hu (fun _ _ h => ⟨h.1, h.2.1⟩) (o.plain hu run)
  have run'' : Reaches (fun s e => Unsaturated s e ∧ Prompt 0 s e ∧ Alone s₀.store.lag s e ∧
      Settled t.settling s) s₀ s := by
    refine run'.mono ?_
    rintro s e ⟨⟨hm, -, hg, hind⟩, hset, -⟩
    exact ⟨hm, hg, hind.alone, hset⟩
  obtain ⟨sound, order, hl⟩ := o.inOrder (Nat.le_refl _) hlag run''
  obtain ⟨a, ha, hca⟩ := hi.exists_chosen
  obtain ⟨b, hb, hcb⟩ := hj.exists_chosen
  have hsa := timed.chosen i a hca
  have hsb := timed.chosen j b hcb
  have hfa := ha.2
  have hfb := hb.2
  rcases order.overlap sound (by lia) hne ha hb hca hcb with ⟨h, h'⟩ | ⟨h, h'⟩
  · refine ⟨b.createdAt - a.createdAt, ?_, ?_, ?_⟩
    · lia
    · lia
    · lia
  · refine ⟨a.createdAt - b.createdAt, ?_, ?_, ?_⟩
    · lia
    · lia
    · lia

/-- Two locks with clients of their own, whose settling time covers the lag of their store, are never
both held with fresh entries if and only if the settling time is nearly twice the lag, or the timeout
leaves no room for both entries. -/
theorem exclusive_iff {lag : Duration} {t : Timings} (ht : t.check = .ok ())
    (hs : lag ≤ t.settling) :
    (∀ (lockPrefix : String) (s₀ s : Contest Bool), Opening lockPrefix t.timeout s₀ →
        Uniform t s₀ → s₀.store.lag = lag → s₀.client true ≠ s₀.client false →
        Reaches Plain s₀ s → ¬ ∀ i, s.HoldsFresh t.timeout i) ↔
      2 * lag ≤ t.settling + 1 ∨ t.timeout + lag ≤ 2 * t.settling := by
  constructor
  · intro h
    by_contra hnot
    rw [not_or] at hnot
    obtain ⟨hlag, htime⟩ := hnot
    -- The second begins as soon as it is not shown to the first in time.
    have hdelay : t.settling + 1 - lag < lag := by
      lia
    obtain ⟨s, run, hheld⟩ := exists_both_hold hdelay hs (by lia) (by lia)
    have hclient : (rivals lag t).client true ≠ (rivals lag t).client false := by
      simp [rivals]
    exact h "p" (rivals lag t) s (opening_rivals ht) uniform_rivals rfl hclient run hheld
  · intro h lockPrefix s₀ s o hu hl _ run hheld
    rw [← hl] at hs h
    obtain ⟨delay, h₁, h₂, h₃⟩ :=
      exists_delay o hu hs run (show true ≠ false by decide) (hheld true) (hheld false)
    rcases h with h | h
    · lia
    · lia

/-- Timings with a settling time of 100 ms. -/
def hasty : Timings where
  timeout := .ofParts 1 0
  polling := .ofParts 0 50000000
  settling := .ofParts 0 100000000

/-- A settling time of exactly the lag does not keep two locks apart. -/
theorem not_exclusive_of_settling_eq_lag : hasty.check = .ok () ∧ hasty.settling ≤ hasty.settling ∧
    ¬ ∀ (lockPrefix : String) (s₀ s : Contest Bool), Opening lockPrefix hasty.timeout s₀ →
      Uniform hasty s₀ → s₀.store.lag = hasty.settling → s₀.client true ≠ s₀.client false →
      Reaches Plain s₀ s → ¬ ∀ i, s.HoldsFresh hasty.timeout i := by
  refine ⟨rfl, Nat.le_refl _, ?_⟩
  intro h
  have hle := (exclusive_iff (t := hasty) rfl (Nat.le_refl _)).mp h
  revert hle
  decide

/-- With a lag and a settling time of 100 ms, a lock that begins 50 ms after another is held beside
it. -/
theorem rivals_both_hold : Opening "p" hasty.timeout (rivals hasty.settling hasty) ∧
    Uniform hasty (rivals hasty.settling hasty) ∧
    (rivals hasty.settling hasty).store.lag ≤ hasty.settling ∧
    ∃ s, Reaches Plain (rivals hasty.settling hasty) s ∧ ∀ i, s.HoldsFresh hasty.timeout i := by
  have hdelay : Duration.ofParts 0 50000000 < hasty.settling := by
    decide
  have hrun := exists_both_hold (t := hasty) hdelay (Nat.le_refl _) (by decide) (by decide)
  exact ⟨opening_rivals rfl, uniform_rivals, Nat.le_refl _, hrun⟩

end StoreLock.Contest
