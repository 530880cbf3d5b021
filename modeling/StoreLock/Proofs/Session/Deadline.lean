import StoreLock.Proofs.Session.Succession

/-!
# Calls with a limit end in time

Where store calls take no time and nobody asks a call to end, a call with a limit comes to an end after finitely
many stops, whatever the store answers and in whatever state the lock was (`acquire_in_time`). The clock has moved
by no more than the limit then, and by exactly the limit if the wait ran out.

All time passes in pauses, and a pause is cut to end with the window at the latest. So what has to be shown is that
there are finitely many (`Session.Undisturbed.pause`). A pause is followed by one that ends later, since the polling
interval is positive, or the entry has grown older than the timeout and is replaced by a later one: either the end
of the pause or the creation of the entry comes nearer to the end of the window.
-/

namespace StoreLock

namespace Window

variable {w : Window} {most d : Duration} {now : Instant}

lemma cut_eq_min (hw : w.limit = some most) : w.cut now d = min (most - (now - w.start)) d := by
  rw [cut, hw]
  rfl

lemma isOver_iff (hw : w.limit = some most) (hstart : w.start ≤ now) :
    w.isOver now = true ↔ w.start + most ≤ now := by
  rw [isOver, hw]
  show decide (most ≤ now - w.start) = true ↔ _
  rw [decide_eq_true_eq, Nat.le_sub_iff_add_le' hstart]

/-- A pause that is cut ends within the window. -/
lemma add_cut_le (hw : w.limit = some most) (hstart : w.start ≤ now) (hnow : now ≤ w.start + most) :
    now + w.cut now d ≤ w.start + most := by
  have hcut : w.cut now d ≤ most - (now - w.start) := by
    rw [cut_eq_min hw]
    exact Nat.min_le_left _ _
  lia

/-- A pause is not cut to nothing before the window ends. -/
lemma cut_pos (hw : w.limit = some most) (hstart : w.start ≤ now) (hnow : now < w.start + most)
    (hd : 0 < d) : 0 < w.cut now d := by
  rw [cut_eq_min hw]
  apply Nat.lt_min.mpr
  exact ⟨by lia, hd⟩

end Window

namespace Session

section

variable {σ Client : Type} {s : Session σ Client}

/-- Whether nothing but the calls of a lock moves the clock of a session, and nobody can ask a call to end. The
store may answer what it likes. -/
structure Undisturbed (s : Session σ Client) : Prop where
  hooks : s.hooks = []
  channel : s.channel = none

lemma Undisturbed.uncancelled (h : s.Undisturbed) : s.reading.cancelled = false := by
  rw [reading, h.channel]
  rfl

variable [ObjectStore σ Client]

/-- A pause lasts as long as it was meant to. -/
lemma Undisturbed.sleep (h : s.Undisturbed) (d : Duration) :
    ∃ s', s.sleep d = (.elapsed, s') ∧ s'.Undisturbed ∧ s'.clock.now = s.clock.now + d := by
  obtain ⟨channel, hs, hvalue⟩ := sleep_eq h.hooks d
  rw [h.channel] at hvalue
  exact ⟨_, hs, ⟨h.hooks, Option.map_eq_none_iff.mp hvalue⟩, rfl⟩

/-- Whether a call comes to an end by this time, and not before it if the wait has run out. -/
def EndsBy (client : Client) (deadline : Instant) (t : Lock.Turn) (s : Session σ Client) : Prop :=
  ∃ n o l s', Goes client n t s (l, .done o) s' ∧ s.clock.now ≤ s'.clock.now ∧
    s'.clock.now ≤ deadline ∧ (o = .gaveUp → s'.clock.now = deadline)

variable {client : Client} {deadline : Instant} {t t' : Lock.Turn} {s' : Session σ Client} {l : Lock}
  {w : Window} {o : Outcome} {most d : Duration} {a : Attempt} {names : List String}
  {st : Lock.Standing}

lemma EndsBy.of_moves (h : EndsBy client deadline t' s') (hm : Moves client t s t' s')
    (hclock : s.clock.now ≤ s'.clock.now) : EndsBy client deadline t s := by
  obtain ⟨n, o, l, s'', hgoes, hle, hby, hgave⟩ := h
  exact ⟨n + 1, o, l, s'', .step hm hgoes, hclock.trans hle, hby, hgave⟩

lemma endsBy_done (hnow : s.clock.now ≤ deadline) (ho : o = .gaveUp → s.clock.now = deadline) :
    EndsBy client deadline (l, .done o) s :=
  ⟨0, o, l, s, .refl, le_rfl, hnow, ho⟩

namespace Undisturbed

/-- A store call takes no time. -/
lemma call (h : s.Undisturbed) (client : Client) (listing : String) (request : Request) :
    ∃ answer s', s.call client listing request = (answer, s') ∧ s'.Undisturbed ∧ s'.clock = s.clock := by
  cases hp : ObjectStore.perform s.store client s.clock.now listing request with
  | mk answer store =>
    refine ⟨answer, { s with store, calls := s.calls ++ [⟨listing, request, answer⟩] }, ?_,
      ⟨h.hooks, h.channel⟩, rfl⟩
    rw [Session.call, fire_eq h.hooks, hp]
    simp only [fire_eq, h.hooks]

/-- A call that waits for its store comes to an end if it does so with every answer. -/
lemma request {phase : Lock.Phase} (h : s.Undisturbed)
    (hresume : ∀ answer (s' : Session σ Client), s'.Undisturbed → s'.clock = s.clock →
      EndsBy client deadline (l.resume phase answer s'.reading) s') :
    EndsBy client deadline (l, .request phase) s := by
  obtain ⟨answer, s', hcall, h', hclock⟩ := h.call client l.listing phase.request
  exact (hresume answer s' h' hclock).of_moves (.request hcall) (by rw [hclock])

lemma abandon (h : s.Undisturbed) (hnow : s.clock.now ≤ deadline)
    (ho : o = .gaveUp → s.clock.now = deadline) : EndsBy client deadline (l.abandon o) s := by
  rw [Lock.abandon]
  split
  case h_1 => exact endsBy_done hnow ho
  case h_2 =>
    apply h.request
    intro answer s' _ hclock
    rw [← hclock] at hnow ho
    exact endsBy_done hnow ho

/-- A call that deletes stale entries comes to an end if it does so without them. -/
lemma reclaim (h : s.Undisturbed)
    (hconclude : ∀ s' : Session σ Client, s'.Undisturbed → s'.clock = s.clock →
      EndsBy client deadline (l.conclude w st s'.reading) s') :
    EndsBy client deadline (l.reclaim w st names s.reading) s := by
  induction names generalizing s with
  | nil => exact hconclude s h rfl
  | cons name names ih =>
    apply h.request
    intro answer s₁ h₁ hclock₁
    apply ih h₁
    intro s₂ h₂ hclock₂
    exact hconclude s₂ h₂ (hclock₂.trans hclock₁)

/-- A call that creates an entry comes to an end if it does so from the pause that follows. -/
lemma seeding (h : s.Undisturbed) (hw : w.limit = some most) (hstart : w.start ≤ s.clock.now)
    (hnow : s.clock.now ≤ w.start + most)
    (hpause : ∀ (l' : Lock) (a : Attempt) (d : Duration) (s' : Session σ Client), s'.Undisturbed →
      s'.clock = s.clock → l'.timings = l.timings → l'.attempt = some a → a.createdAt = s.clock.now →
      s.clock.now + d ≤ w.start + most → EndsBy client (w.start + most) (l', .pause d ⟨w⟩) s') :
    EndsBy client (w.start + most) (l, .request (.seeding w)) s := by
  apply h.request
  intro answer s₁ h₁ hclock₁
  cases answer with
  | error e =>
    show EndsBy client _ (l.abandon (.failed (.store e))) s₁
    exact h₁.abandon (hclock₁ ▸ hnow) (by simp)
  | ok listed =>
    show EndsBy client _ (l.register w listed s₁.reading) s₁
    obtain ⟨sequence, sequencer, contents, hreg⟩ := l.register_eq w listed s₁.reading
    rw [hreg]
    apply h₁.request
    intro answer s₂ h₂ hclock₂
    have hclock : s₂.clock = s.clock := hclock₂.trans hclock₁
    have hnow₂ : s₂.reading.now = s.clock.now := congrArg Clock.now hclock
    cases answer with
    | error e =>
      show EndsBy client _ (Lock.abandon _ (.failed (.store e))) s₂
      exact h₂.abandon (hclock ▸ hnow) (by simp)
    | ok u =>
      show EndsBy client _ (Lock.pause _ w _ s₂.reading) s₂
      rw [Lock.pause_eq h₂.uncancelled, hnow₂]
      have ht : (l.drawn listed s₁.reading.now sequencer).timings = l.timings := Lock.drawn_timings
      exact hpause _ _ _ s₂ h₂ hclock ht rfl rfl (Window.add_cut_le hw hstart hnow)

/-- A call that has ranked its entry comes to an end if it does so from every pause that may follow: one that takes
time, or one behind the creation of a later entry. -/
lemma conclude (h : s.Undisturbed) (hw : w.limit = some most) (ha : l.attempt = some a)
    (hpolling : 0 < l.timings.polling) (hstart : w.start ≤ s.clock.now)
    (hnow : s.clock.now ≤ w.start + most) (hold : st = .reclaimed → a.createdAt < s.clock.now)
    (hpause : ∀ (l' : Lock) (a' : Attempt) (d : Duration) (s' : Session σ Client), s'.Undisturbed →
      s'.clock = s.clock → l'.timings = l.timings → l'.attempt = some a' →
      (a' = a ∧ 0 < d ∨ a.createdAt < a'.createdAt ∧ a'.createdAt = s.clock.now) →
      s.clock.now + d ≤ w.start + most → EndsBy client (w.start + most) (l', .pause d ⟨w⟩) s') :
    EndsBy client (w.start + most) (l.conclude w st s.reading) s := by
  cases st with
  | first => exact endsBy_done hnow (by simp)
  | waiting =>
    rw [Lock.conclude]
    by_cases hover : w.isOver s.reading.now = true
    · have hend := (Window.isOver_iff hw hstart).mp hover
      rw [if_pos hover]
      exact h.abandon hnow fun _ => hnow.antisymm hend
    · have hleft : s.clock.now < w.start + most :=
        Nat.lt_of_not_le fun hend => hover ((Window.isOver_iff hw hstart).mpr hend)
      rw [if_neg hover, Lock.pause_eq h.uncancelled]
      exact hpause l a _ s h rfl rfl ha (.inl ⟨rfl, Window.cut_pos hw hstart hleft hpolling⟩)
        (Window.add_cut_le hw hstart hnow)
  | reclaimed =>
    rw [Lock.conclude, ha]
    apply h.request
    intro _ s₁ h₁ hclock₁
    show EndsBy client _ (l.withoutAttempt, .request (.seeding w)) s₁
    have ht₁ : l.withoutAttempt.timings = l.timings := by rw [Lock.withoutAttempt, ha]
    rw [← hclock₁] at hstart hnow hold hpause
    apply h₁.seeding hw hstart hnow
    intro l₂ a₂ d s₂ h₂ hclock₂ ht₂ ha₂ hcreated₂ hby₂
    apply hpause l₂ a₂ d s₂ h₂ hclock₂ (ht₂.trans ht₁) ha₂ (.inr ⟨?_, hcreated₂⟩) hby₂
    rw [hcreated₂]
    exact hold rfl

/-- A call that pauses comes to an end. -/
lemma pause (h : s.Undisturbed) (hw : w.limit = some most) (ha : l.attempt = some a)
    (hpolling : 0 < l.timings.polling) (hstart : w.start ≤ s.clock.now)
    (hcreated : a.createdAt ≤ s.clock.now) (hby : s.clock.now + d ≤ w.start + most) :
    EndsBy client (w.start + most) (l, .pause d ⟨w⟩) s := by
  -- The end of the pause or the creation of the entry comes nearer to the end of the window.
  induction hn : (w.start + most - a.createdAt) + (w.start + most - (s.clock.now + d)) using
    Nat.strongRecOn generalizing l a d s with
  | ind n ih =>
    obtain ⟨s₁, hsleep, h₁, hnow₁⟩ := h.sleep d
    apply EndsBy.of_moves _ (.pause hsleep) (by lia)
    rw [Lock.wake, ha]
    apply h₁.request
    intro answer s₂ h₂ hclock₂
    have hnow₂ : s₂.clock.now = s.clock.now + d := (congrArg Clock.now hclock₂).trans hnow₁
    cases answer with
    | error e =>
      show EndsBy client _ (l.abandon (.failed (.store e))) s₂
      exact h₂.abandon (hnow₂.trans_le hby) (by simp)
    | ok listed =>
      show EndsBy client _ (l.judge w listed s₂.reading) s₂
      rw [Lock.judge_eq ha]
      apply h₂.reclaim
      intro s₃ h₃ hclock₃
      have hnow₃ : s₃.clock.now = s.clock.now + d := (congrArg Clock.now hclock₃).trans hnow₂
      have ha₃ : (l.observe listed s₂.reading.now).attempt = some a := Lock.observe_attempt.trans ha
      have ht₃ : (l.observe listed s₂.reading.now).timings = l.timings := Lock.observe_timings
      apply h₃.conclude hw ha₃ (by rwa [ht₃]) (by lia) (by lia)
      · intro hst
        have hlt := (Lock.standing_eq_reclaimed_iff.mp hst).2
        have hnow : s₂.reading.now = s₃.clock.now := congrArg Clock.now hclock₃.symm
        lia
      · intro l₄ a₄ d₄ s₄ h₄ hclock₄ ht₄ ha₄ hlater hby₄
        have hnow₄ : s₄.clock.now = s₃.clock.now := congrArg Clock.now hclock₄
        have hcreated₄ : a₄.createdAt ≤ s₄.clock.now := by
          rcases hlater with ⟨rfl, -⟩ | ⟨-, hnew⟩
          · lia
          · lia
        apply ih _ _ h₄ ha₄ (by rwa [ht₄, ht₃]) (by lia) hcreated₄ (by lia) rfl
        rcases hlater with ⟨rfl, hd⟩ | ⟨hnew, -⟩
        · lia
        · lia

lemma start (h : s.Undisturbed) (hpolling : 0 < l.timings.polling) :
    EndsBy client (s.clock.now + most) (l.start (some most) s.reading) s := by
  rw [Lock.start, h.uncancelled]
  show EndsBy client _ ({ l with state := .acquiring }, .request (.seeding ⟨s.clock.now, some most⟩)) s
  apply h.seeding rfl le_rfl (Nat.le_add_right _ _)
  intro l' a d s' h' hclock ht ha hcreated hby
  have hnow : s'.clock.now = s.clock.now := congrArg Clock.now hclock
  exact h'.pause rfl ha (by rwa [ht]) hnow.ge (by lia) (by rwa [hnow])

end Undisturbed

/-- A call with a limit on a lock that is not held comes to an end after finitely many stops, if store calls take no
time and nobody asks it to end. By then the clock has moved by no more than the limit, and by exactly the limit if
the wait has run out. -/
theorem acquire_in_time (s : Session σ Client) (client : Client) (l : Lock) (most : Duration)
    (hs : s.Undisturbed) (ht : l.timings.check = .ok ()) (hl : l.state ≠ .held) :
    ∃ fuel o l' s',
      (∀ more ≥ fuel, Session.run more s client (l.acquire (some most) s.reading) = (some o, l', s')) ∧
      s.clock.now ≤ s'.clock.now ∧ s'.clock.now ≤ s.clock.now + most ∧
      (o = .gaveUp → s'.clock.now = s.clock.now + most) := by
  have hpolling : 0 < l.timings.polling := (Timings.check_eq_ok ht).1
  have hends : EndsBy client (s.clock.now + most) (l.acquire (some most) s.reading) s := by
    -- What is left of a call that was dropped is cleared away first, which takes no time either.
    have hclear : ∀ a, EndsBy client (s.clock.now + most)
        (l.withoutAttempt, .request (.clearing (some most) (Attempt.entry a).name)) s := by
      intro a
      apply hs.request
      intro answer s' h' hclock
      rw [← hclock]
      apply h'.start
      rw [Lock.withoutAttempt]
      split <;> exact hpolling
    rw [Lock.acquire]
    split
    case h_1 hheld => exact absurd hheld hl
    case h_2 => exact hs.start hpolling
    case h_3 =>
      split
      case h_1 => exact hs.start hpolling
      case h_2 a _ => exact hclear a
    case h_4 =>
      split
      case h_1 => exact hs.start hpolling
      case h_2 a _ => exact hclear a
  obtain ⟨n, o, l', s', hgoes, hle, hby, hgave⟩ := hends
  exact ⟨n, o, l', s', hgoes.run, hle, hby, hgave⟩

/-- A lock whose last call was dropped half-way, where nobody else is and where another lives: then the wait runs
out. -/
theorem acquire_in_time_of_dropped :
    let s : Session MemoryStore Nat := { clock := .initial, store := {}, main := 0 }
    let rival : MemoryStore := (MemoryStore.create {} 0 0 (Entry.name ⟨"p", 0, ⟨"b"⟩⟩) .empty).2
    let l : Lock := ⟨"p", ⟨"a"⟩, .recommended, {}, {}, .acquiring, some ⟨⟨"p", 3, ⟨"a"⟩⟩, 0⟩⟩
    s.Undisturbed ∧ l.timings.check = .ok () ∧ l.state ≠ .held ∧
    (∃ fuel o l' s',
      (∀ more ≥ fuel, Session.run more s 0 (l.acquire (some 7) s.reading) = (some o, l', s')) ∧
      s'.clock.now ≤ 7 ∧ (o = .gaveUp → s'.clock.now = 7)) ∧
    { s with store := rival }.Undisturbed ∧
    ∃ fuel l' s',
      (∀ more ≥ fuel, Session.run more { s with store := rival } 0 (l.acquire (some 7) s.reading) =
        (some .gaveUp, l', s')) ∧
      s'.clock.now = 7 := by
  intro s rival l
  have hs : s.Undisturbed := ⟨rfl, rfl⟩
  have hs' : { s with store := rival }.Undisturbed := ⟨rfl, rfl⟩
  have ht : l.timings.check = .ok () := by decide
  have hl : l.state ≠ .held := by decide
  have hstart : s.clock.now = 0 := rfl
  refine ⟨hs, ht, hl, ?_, hs', ?_⟩
  · obtain ⟨fuel, o, l', s', hrun, -, hby, hgave⟩ := acquire_in_time s 0 l 7 hs ht hl
    rw [hstart, Nat.zero_add] at hby hgave
    exact ⟨fuel, o, l', s', hrun, hby, hgave⟩
  · obtain ⟨fuel, o, l', s', hrun, -, -, hgave⟩ := acquire_in_time { s with store := rival } 0 l 7 hs' ht hl
    -- Twelve moves are enough, so this is how the call ends with any fuel.
    have hends : (Session.run 12 { s with store := rival } 0 (l.acquire (some 7) s.reading)).1 = some .gaveUp := by
      decide +kernel
    obtain rfl : o = .gaveUp := outcome_unique (hrun _ le_rfl) hends
    exact ⟨fuel, l', s', hrun, (hgave rfl).trans (Nat.zero_add 7)⟩

end

end Session

end StoreLock
