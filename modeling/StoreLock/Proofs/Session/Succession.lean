import StoreLock.Proofs.Session.Lone

/-!
# Succession

A lock that is alone takes over from whoever has left entries in the queue, within the timeout and one
polling interval (`Session.Lone.succeeds`). It has seen all of them since it joined. While none of them
is stale it polls, and each poll brings it nearer to the time at which all of them are; the first listing
after that ranks it first, and before that it can only have come first by itself.
-/

namespace StoreLock

/-- Timings that are accepted have a polling interval, and their timeout outlasts the settling time. -/
lemma Timings.check_eq_ok {t : Timings} (h : t.check = .ok ()) :
    0 < t.polling ∧ t.settling < t.timeout := by
  rw [check, fault?] at h
  split_ifs at h with hp ht
  exact ⟨Nat.pos_of_ne_zero hp, Nat.lt_of_not_le ht⟩

namespace Session

/-- Whether an own entry has succeeded in the queue of a prefix: the lock is held by it, no entry that
exists comes before it, and all that is not in the queue is as it was in the session before. -/
structure Succeeds (lockPrefix : String) (own : Entry) (s : Session MemoryStore Nat) (l' : Lock)
    (s' : Session MemoryStore Nat) : Prop where
  held : l'.state = .held
  entry : l'.attempt.map (·.entry) = some own
  stands : ∃ o, (own.name, o) ∈ s'.store.live
  first : ∀ n o e, (n, o) ∈ s'.store.live → Entry.read n = .ok e → e.lockPrefix = lockPrefix →
    own.le e = true
  others : ∀ n o, ¬ Entry.IsQueued lockPrefix n →
    ((n, o) ∈ s'.store.live ↔ (n, o) ∈ s.store.live)

namespace Lone

variable {s : Session MemoryStore Nat} {l : Lock} {a : Attempt} {w : Window} {d : Duration}
  {began now : Instant} {client : Nat} {listed : List String}

/-- A lock whose entry is ranked first after a pause deletes what is stale, and then it holds the lock by
an entry that none comes before. -/
lemma wins (h : s.Lone) (hlisted : s.store.shown l.listing = listed) (hnow : s.clock.now + d = now)
    (hw : l.Watches a listed began)
    (hfirst : (l.observe listed now).standing a listed now = .first) (w : Window) (client : Nat) :
    ∃ n l' s', Goes client n (l, .pause d ⟨w⟩) s (l', .done .acquired) s' ∧
      s'.clock.now = now ∧ Succeeds l.lockPrefix a.entry s l' s' := by
  obtain ⟨s₁, hranks, h₁, ht₁, hlive₁⟩ := h.ranks client hw.attempt d w
  rw [hnow] at ht₁
  have hnow₁ : s₁.reading.now = now := ht₁
  rw [Lock.judge_eq hw.attempt, hlisted, hnow₁, hfirst] at hranks
  obtain ⟨s₂, hdeletes, h₂, ht₂, hlive₂⟩ := h₁.reclaims client (l.observe listed now) w .first
    ((l.observe listed now).stale a.entry listed now)
  rw [hlive₁] at hlive₂
  refine ⟨_, _, s₂, hranks.trans hdeletes, (congrArg Clock.now ht₂).trans ht₁, rfl, ?_, ?_, ?_, ?_⟩
  · show Option.map _ (l.observe listed now).attempt = _
    rw [Lock.observe_attempt, hw.attempt]
    rfl
  · have hown := hw.own
    rw [← hlisted] at hown
    obtain ⟨⟨o, ho⟩, -⟩ := MemoryStore.mem_shown.mp hown
    refine ⟨o, (hlive₂ _).mpr ⟨ho, ?_⟩⟩
    intro hm
    exact (Lock.mem_stale hm).2.2.1 rfl
  · intro n o e hn he hp
    obtain ⟨hlive, hkept⟩ := (hlive₂ _).mp hn
    have hmem : n ∈ listed := by
      rw [← hlisted, Lock.listing, ← hp]
      exact MemoryStore.mem_shown_of_read hlive he
    have hq : (l.observe listed now).queued? n = some e := by
      rw [Lock.observe_queued?, Lock.queued?_eq_some]
      exact ⟨he, hp⟩
    apply Lock.le_of_standing_first hfirst hmem hq
    rw [← Bool.not_eq_true]
    intro hr
    exact hkept (List.mem_filter.mpr ⟨hmem, hr⟩)
  · intro n o hn
    rw [hlive₂, and_iff_left]
    intro hm
    obtain ⟨-, hq, -⟩ := Lock.mem_stale hm
    rw [Lock.exists_queued?_iff, Lock.observe_lockPrefix] at hq
    exact hn hq

/-- A lock whose entry is not ranked first after a pause has not waited for the timeout yet, and it polls
on: nothing is stale. -/
lemma polls (h : s.Lone) (hlisted : s.store.shown l.listing = listed) (hnow : s.clock.now + d = now)
    (hw : l.Watches a listed w.start)
    (hnot : (l.observe listed now).standing a listed now ≠ .first)
    (hlimit : ∀ most, w.limit = some most → l.timings.timeout + l.timings.polling ≤ most)
    (hpos : 0 < l.timings.polling) (client : Nat) :
    now ≤ w.start + l.timings.timeout ∧
      ∃ s', Goes client 2 (l, .pause d ⟨w⟩) s
          (l.observe listed now, .pause l.timings.polling ⟨w⟩) s' ∧
        s'.Lone ∧ s'.clock.now = now ∧ s'.store.live = s.store.live := by
  have hw' := hw.observe now
  have hearly : now ≤ w.start + l.timings.timeout := by
    apply Nat.le_of_not_lt
    intro hlt
    apply hnot
    apply hw'.standing_eq_first_of_lt
    rw [Lock.observe_timings]
    exact hlt
  have hwaiting : (l.observe listed now).standing a listed now = .waiting := by
    cases hst : (l.observe listed now).standing a listed now with
    | first => exact absurd hst hnot
    | waiting => rfl
    | reclaimed => exact absurd hst hw'.standing_ne_reclaimed
  have hstale : (l.observe listed now).stale a.entry listed now = [] := by
    apply hw'.stale_eq_nil
    rw [Lock.observe_timings]
    exact hearly
  have hover : w.isOver now = false := by
    apply Window.isOver_eq_false
    intro most hm
    have := hlimit most hm
    lia
  have hcut : w.cut now l.timings.polling = l.timings.polling := by
    apply Window.cut_eq
    intro most hm
    have := hlimit most hm
    lia
  obtain ⟨s', hranks, h', ht', hlive⟩ := h.ranks client hw.attempt d w
  rw [hnow] at ht'
  have hnow' : s'.reading.now = now := ht'
  refine ⟨hearly, s', ?_, h', ht', hlive⟩
  rw [Lock.judge_eq hw.attempt, hlisted, hnow', hwaiting, hstale, Lock.reclaim, Lock.conclude, hnow',
    hover, if_neg Bool.false_ne_true, Lock.pause_eq h'.uncancelled, hnow', Lock.observe_timings,
    hcut] at hranks
  exact hranks

/-- A lock that watches the queue takes it over in a poll no later than one polling interval after all
others have grown stale. -/
theorem succeeds_of_watches {lockPrefix : String} {t : Timings} (h : s.Lone)
    (hp : l.lockPrefix = lockPrefix) (ht : l.timings = t)
    (hw : l.Watches a (s.store.shown l.listing) w.start)
    (hlimit : ∀ most, w.limit = some most → t.timeout + t.polling ≤ most) (hpos : 0 < t.polling)
    (hd : s.clock.now + d ≤ w.start + t.timeout + t.polling) (client : Nat) :
    ∃ n l' s', Goes client n (l, .pause d ⟨w⟩) s (l', .done .acquired) s' ∧
      s'.clock.now ≤ w.start + t.timeout + t.polling ∧ Succeeds lockPrefix a.entry s l' s' := by
  -- The time that is left after the pause grows shorter with every poll.
  induction hleft : w.start + t.timeout + t.polling - (s.clock.now + d) using Nat.strong_induction_on
    generalizing l s d with
  | h left ih =>
    subst hp ht
    obtain ⟨listed, hlisted⟩ : ∃ listed, s.store.shown l.listing = listed := ⟨_, rfl⟩
    obtain ⟨now, hnow⟩ : ∃ now, s.clock.now + d = now := ⟨_, rfl⟩
    rw [hlisted] at hw
    by_cases hfirst : (l.observe listed now).standing a listed now = .first
    · obtain ⟨n, l', s', hgoes, ht', hs⟩ := h.wins hlisted hnow hw hfirst w client
      exact ⟨n, l', s', hgoes, by lia, hs⟩
    · obtain ⟨hearly, s₁, hpolls, h₁, ht₁, hlive₁⟩ :=
        h.polls hlisted hnow hw hfirst hlimit hpos client
      have hw₁ : (l.observe listed now).Watches a
          (s₁.store.shown (l.observe listed now).listing) w.start := by
        rw [Lock.observe_listing, MemoryStore.shown_congr hlive₁, hlisted]
        exact hw.observe now
      obtain ⟨n, l', s', hgoes, ht', hs⟩ := ih
        (w.start + l.timings.timeout + l.timings.polling - (s₁.clock.now + l.timings.polling))
        (by lia) h₁ Lock.observe_lockPrefix Lock.observe_timings hw₁ (by lia) rfl
      refine ⟨2 + n, l', s', hpolls.trans hgoes, ht', { hs with others := ?_ }⟩
      intro n o hn
      rw [hs.others n o hn, hlive₁]

/-- A lock that is alone and may wait for the timeout and one polling interval takes the lock within that
time, whatever the store holds when it begins. -/
theorem succeeds {lockPrefix : String} {owner : OwnerId} {t : Timings} {strategy : Strategy}
    {limit : WaitLimit} (hl : Lock.create lockPrefix owner t strategy = .ok l)
    (ho : OwnerId.accepts owner.text = true) (h : s.Lone)
    (hlimit : ∀ most, limit = some most → t.timeout + t.polling ≤ most) (client : Nat) :
    ∃ fuel l' s' own, (∀ more ≥ fuel,
        Session.run more s client (l.acquire limit s.reading) = (some .acquired, l', s')) ∧
      (own.lockPrefix = lockPrefix ∧ own.owner = owner) ∧
      s'.clock.now ≤ s.clock.now + (t.timeout + t.polling) ∧ Succeeds lockPrefix own s l' s' := by
  obtain ⟨-, -, ht⟩ := Lock.eq_of_create hl
  obtain ⟨hpos, hsettling⟩ := Timings.check_eq_ok ht
  have hlong (most : Duration) (hm : limit = some most) : t.settling ≤ most := by
    have := hlimit most hm
    lia
  obtain ⟨l₁, a, s₁, henters, h₁, ht₁, ⟨hp₁, htimings₁⟩, ha, hw, o, hlive₁⟩ :=
    Lone.enters hl ho h limit hlong client
  have hlate : s₁.clock.now + t.settling ≤ s.clock.now + t.timeout + t.polling := by
    rw [ht₁]
    lia
  obtain ⟨n, l', s', hgoes, htime, hs⟩ :=
    h₁.succeeds_of_watches (w := ⟨s.clock.now, limit⟩) hp₁ htimings₁ hw hlimit hpos hlate client
  refine ⟨2 + n, l', s', a.entry, (henters.trans hgoes).run, ha, ?_, { hs with others := ?_ }⟩
  · rw [← Nat.add_assoc]
    exact htime
  · intro m o' hm
    have hne : m ≠ a.entry.name := by
      intro heq
      apply hm
      rw [heq, ← hp₁]
      exact Lock.exists_queued?_iff.mp ⟨a.entry, hw.reads⟩
    rw [hs.others m o' hm, hlive₁, MemoryStore.mem_insert]
    simp [hne]

/-- A lock takes over from an entry that another has left, in a store that holds names of other kinds
too. -/
theorem succeeds_over_abandoned : ∃ l s fuel l' s' own,
    Lock.create "p" ⟨"a"⟩ .recommended .counter = .ok l ∧ OwnerId.accepts "a" = true ∧ s.Lone ∧
      s.store.live.map (·.1) =
        ["p_00000000000000000007_z", "p_q_00000000000000000009_b", "p_readme"] ∧
      (∀ most, some 901000000000 = some most →
        Timings.recommended.timeout + Timings.recommended.polling ≤ most) ∧
      (∀ more ≥ fuel, Session.run more s MemoryStore.mainClient
        (l.acquire (some 901000000000) s.reading) = (some .acquired, l', s')) ∧
      (own.lockPrefix = "p" ∧ own.owner = ⟨"a"⟩) ∧
      s'.clock.now ≤ s.clock.now + (Timings.recommended.timeout + Timings.recommended.polling) ∧
      Succeeds "p" own s l' s' := by
  obtain ⟨l, hl, ho⟩ : ∃ l, Lock.create "p" ⟨"a"⟩ .recommended .counter = .ok l ∧
      OwnerId.accepts "a" = true := by
    refine ⟨⟨"p", ⟨"a"⟩, .recommended, { strategy := .counter }, {}, .idle, none⟩, ?_⟩
    decide +kernel
  obtain ⟨s, hs, hlive⟩ : ∃ s : Session MemoryStore Nat, s.Lone ∧ s.store.live.map (·.1) =
      ["p_00000000000000000007_z", "p_q_00000000000000000009_b", "p_readme"] := by
    refine ⟨⟨.initial, { objects := [("p_00000000000000000007_z", ⟨ByteArray.empty, 7, 0, none⟩),
      ("p_q_00000000000000000009_b", ⟨ByteArray.empty, 7, 0, none⟩),
      ("p_readme", ⟨ByteArray.empty, 7, 0, none⟩)] }, MemoryStore.mainClient, [], none, [], []⟩, ?_, rfl⟩
    refine ⟨rfl, rfl, ⟨rfl, ?_⟩, rfl⟩
    intro kind
    cases kind <;> rfl
  have hlimit (most : Duration) (hm : some 901000000000 = some most) :
      Timings.recommended.timeout + Timings.recommended.polling ≤ most := by
    cases hm
    decide
  obtain ⟨fuel, l', s', own, hrun, hown, htime, hsucc⟩ :=
    succeeds hl ho hs hlimit MemoryStore.mainClient
  exact ⟨l, s, fuel, l', s', own, hl, ho, hs, hlive, hlimit, hrun, hown, htime, hsucc⟩

end Lone

end Session

end StoreLock
