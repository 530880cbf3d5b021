import StoreLock.Proofs.Lock.Limit
import StoreLock.Proofs.Lock.Ranking

/-!
# No hold before settling

An entry that was just created may not be shown to others yet, nor theirs to its owner, so a call
pauses for the settling time before it ranks its entry. The pause does not outlast the call: a call
that may not wait as long ranks its entry once when its wait runs out. So the listing by which a call
gets the lock was asked for when the entry had settled, or when the limit of the call was reached.

`Underway` carries the argument. A call that follows its own entry is in the settling pause after the
last creation, or that pause has come to its end. It holds after every step, whether the entry is the
first of the call or replaces one that was reclaimed.
-/

namespace StoreLock

/-- The latest of some steps that created an entry. -/
def lastCreation? (steps : List Taken) : Option Taken :=
  steps.find? fun t => t.input.created?.isSome

/-- An entry that was created at `created` has settled, or the call that began at `start` has no time
left to wait for that. -/
def Settled (limit : WaitLimit) (start : Instant) (settling : Duration) (created now : Instant) :
    Prop :=
  created + settling ≤ now ∨ ∃ most, limit = some most ∧ start + most ≤ now

variable {limit : WaitLimit} {start created asked now now' : Instant} {settling : Duration}

lemma Settled.mono (h : Settled limit start settling created now) (hle : now ≤ now') :
    Settled limit start settling created now' := by
  rcases h with h | ⟨most, hm, h⟩
  · exact .inl (h.trans hle)
  · exact .inr ⟨most, hm, h.trans hle⟩

/-- A settling pause is as long as it has to be. -/
lemma Window.settled_of_cut {w : Window} (hw : start ≤ w.start) (hc : start ≤ created)
    (h : created + w.cut created settling ≤ now) :
    Settled w.limit start settling created now := by
  rw [cut, WaitLimit.cut] at h
  cases hl : w.limit with
  | none =>
    rw [hl] at h
    exact .inl h
  | some most =>
    rw [hl] at h
    have h : created + min (most - (created - w.start)) settling ≤ now := h
    by_cases hle : settling ≤ most - (created - w.start)
    · rw [Nat.min_eq_right hle] at h
      exact .inl h
    · rw [Nat.min_eq_left (Nat.le_of_not_le hle)] at h
      exact .inr ⟨most, rfl, by lia⟩

namespace Member

/-- What holds throughout a call: its wait counts from its beginning on, and if it follows its own
entry, then that is the entry created last, which has settled or is in its settling pause. -/
structure Underway (timings : Timings) (limit : WaitLimit) (start : Instant) (call : List Taken)
    (m : Member) : Prop where
  coherent : m.Coherent
  timings_eq : m.lock.timings = timings
  begun : start ≤ m.since
  span : ∀ s, m.span? = some s → s.limit = limit ∧ ∀ b, s.start = some b → start ≤ b
  queuing : m.IsQueuing → ∃ a c, m.lock.attempt = some a ∧ lastCreation? call = some c ∧
    c.input.created? = some a.entry ∧
    (Settled limit start timings.settling c.time m.since ∨
      (m.since = c.time ∧ ∃ w, m.progress = some (.pause (w.cut c.time timings.settling) ⟨w⟩)))

variable {m m' : Member} {input : Input} {t : Taken} {call earlier newer older steps : List Taken}
  {times : Timings} {a : Attempt} {c : Taken}

lemma IsResting.span? (h : m.IsResting) : m.span? = none := by
  rcases h.progress_cases with hp | ⟨o, hp⟩ <;>
  · rw [Member.span?, hp]
    rfl

lemma IsResting.not_isQueuing (h : m.IsResting) : ¬ m.IsQueuing := by
  rcases h.progress_cases with hp | ⟨o, hp⟩ <;>
  · rw [IsQueuing, hp]
    exact id

lemma Step.created_eq_none (st : Step m input m') (hq : m.IsQueuing) : input.created? = none := by
  cases hc : input.created? with
  | none => rfl
  | some e =>
    have hp := st.pending_of_created hc
    rw [pending?] at hp
    rw [IsQueuing] at hq
    split at hp
    case h_1 hp' =>
      rw [hp'] at hq
      exact hq.elim
    case h_2 => cases hp

lemma underway_begins {r : Reading} (hm : m.Coherent) (ht : m.lock.timings = times)
    (st : Step m (.acquire limit r) m') : Underway times limit r.now call m' where
  coherent := st.coherent hm
  timings_eq := (st.advance hm).timings.trans ht
  begun := by
    rw [st.since]
    exact Nat.le_refl _
  span s hs := by
    cases st with
    | acquire hrest =>
      rcases (Step.acquire hrest).span hs with h | ⟨h, -⟩ | ⟨r', hi, hb⟩
      · rw [hrest.span?] at h
        cases h
      · rw [hrest.span?] at h
        cases h
      · cases hi
        refine ⟨rfl, fun b hsb => ?_⟩
        rcases hb with hb | hb
        · rw [hb] at hsb
          cases hsb
        · rw [hb] at hsb
          cases hsb
          exact Nat.le_refl _
  queuing hq := by
    rcases st.queuing hq with ⟨hq', -⟩ | ⟨w, e, b, r', hi, -⟩
    · cases st with
      | acquire hrest => exact (hrest.not_isQueuing hq').elim
    · cases hi

lemma Underway.step (h : Underway times limit start call m) (hp : Punctual m t.input)
    (st : Step m t.input t.member) (hon : t.input.GoesOn) :
    Underway times limit start (t :: call) t.member := by
  have hsince : t.member.since = t.time := st.since
  have hsteady : m.since ≤ t.time := hp.steady
  have hspan : ∀ s, t.member.span? = some s →
      s.limit = limit ∧ ∀ b, s.start = some b → start ≤ b := by
    intro s hs
    rcases st.span hs with h' | ⟨h', hb⟩ | ⟨r, hi, -⟩
    · exact h.span s h'
    · obtain ⟨hlim, -⟩ := h.span _ h'
      refine ⟨hlim, fun b hsb => ?_⟩
      rw [hb] at hsb
      cases hsb
      exact h.begun.trans hsteady
    · rw [hi] at hon
      exact hon.elim
  refine ⟨st.coherent h.coherent, (st.advance h.coherent).timings.trans h.timings_eq, ?_, hspan, ?_⟩
  · rw [hsince]
    exact h.begun.trans hsteady
  · intro hq
    -- The call followed its entry before, or the entry has just been created.
    rcases st.queuing hq with ⟨hq', hatt⟩ | ⟨w, e, b, r, hi, ha, hpause⟩
    · obtain ⟨a, c, ha, hc, hce, hstate⟩ := h.queuing hq'
      obtain ⟨a', ha'⟩ := (st.coherent h.coherent).attempt hq
      have haa := hatt a' ha'
      rw [ha] at haa
      cases haa
      refine ⟨a, c, ha', ?_, hce, .inl ?_⟩
      · rw [lastCreation?, List.find?_cons, st.created_eq_none hq']
        exact hc
      · rw [hsince]
        rcases hstate with hs | ⟨hnow, w, hpause⟩
        · exact hs.mono hsteady
        · -- The settling pause has just come to its end.
          obtain ⟨r, hi⟩ := st.elapsed hpause hq
          have hlong := hp.elapsed _ _ r hpause hi
          obtain ⟨hlim, hst⟩ := h.span w.span (by rw [span?, hpause]; rfl)
          have hr : t.time = r.now := by rw [Taken.time, hi]; rfl
          rw [hnow, ← hr] at hlong
          have hbegun := h.begun
          rw [hnow] at hbegun
          have hsettled := Window.settled_of_cut (hst _ rfl) hbegun hlong
          rw [show w.limit = limit from hlim] at hsettled
          exact hsettled
    · have hr : t.time = r.now := by rw [Taken.time, hi]; rfl
      refine ⟨⟨e, r.now⟩, t, ha, ?_, ?_, .inr ⟨hsince, w, ?_⟩⟩
      · rw [lastCreation?, List.find?_cons, hi]
        rfl
      · rw [hi]
        rfl
      · rw [hpause, hr, h.timings_eq]

lemma IsCall.underway (hc : IsCall limit start call) (h : History Punctual m call)
    (hm : m.Coherent) (ht : m.lock.timings = times) :
    Underway times limit start call (m.after call) := by
  induction hc with
  | @begins t r hi hr =>
    cases h with
    | cons h _ st =>
      rw [hi] at st
      rw [← hr]
      exact underway_begins hm ht st
  | goesOn hc hon ih =>
    cases h with
    | cons h hp st => exact (ih h).step hp st hon

lemma History.timings {allowed : Member → Input → Prop} (h : History allowed m steps)
    (hm : m.Coherent) : (m.after steps).lock.timings = m.lock.timings := by
  induction h with
  | nil => rfl
  | cons h _ st ih => exact ((st.advance (h.coherent hm)).timings).trans ih

/-- How a call has come to hold the lock: the step `c` created an entry, no step between created
another, and the step `t` brought a listing that ranks the entry first. -/
structure HeldBy (m : Member) (earlier newer : List Taken) (t : Taken) (older : List Taken)
    (c : Taken) (a : Attempt) : Prop where
  ranked : RankedFirst (m.after (older ++ earlier)) t.input a
  last : lastCreation? older = some c
  created : c.input.created? = some a.entry
  held : (m.after (newer ++ t :: older ++ earlier)).lock.attempt = some a

lemma Winning.attempt {names : List String} (h : Winning a names m) : m.lock.attempt = some a := by
  cases h with
  | held ha => exact ha
  | deleting ha => exact ha

lemma History.attempt_of_rankedFirst {allowed : Member → Input → Prop}
    (h : History allowed m (newer ++ t :: older)) (hon : ∀ t' ∈ newer, t'.input.GoesOn)
    (hr : RankedFirst (m.after older) t.input a) :
    (m.after (newer ++ t :: older)).lock.attempt = some a := by
  obtain ⟨w, listed, r, hi, ha, hs⟩ := hr
  have hafter := h.from_append
  cases h.of_append with
  | cons _ _ st =>
    obtain ⟨_, _, _, _, hwin, -⟩ := (st.winning hi ha hs).history hafter hon
    rw [after_append]
    exact hwin.attempt

/-- A call that ranks its entry knows when it was created, and that it has settled. -/
lemma Underway.settled (h : Underway times limit start call m) (st : Step m input m')
    (hr : RankedFirst m input a) :
    ∃ c, lastCreation? call = some c ∧ c.input.created? = some a.entry ∧
      Settled limit start times.settling c.time m.since := by
  obtain ⟨w, listed, r, rfl, ha, -⟩ := hr
  have hp := st.progress_of_answer
  obtain ⟨a', c, ha', hc, hce, hstate⟩ := h.queuing (IsRanking.isQueuing ⟨w, hp⟩)
  rw [ha] at ha'
  cases ha'
  refine ⟨c, hc, hce, hstate.resolve_right ?_⟩
  rintro ⟨-, w', hpause⟩
  rw [hp] at hpause
  cases hpause

section

variable {lockPrefix : String} {owner : OwnerId} {strategy : Strategy} {l : Lock}

/-- Before a listing that ranks the entry of a call first, the entry has settled, or the limit of the
call was reached. -/
lemma IsCall.settled (hl : Lock.create lockPrefix owner times strategy = .ok l)
    (h : History Punctual { lock := l } (newer ++ t :: older ++ earlier))
    (hc : IsCall limit start (newer ++ t :: older))
    (hr : RankedFirst (Member.after { lock := l } (older ++ earlier)) t.input a) :
    ∃ c, lastCreation? older = some c ∧ c.input.created? = some a.entry ∧
      Settled limit start times.settling c.time
        (Member.after { lock := l } (older ++ earlier)).since := by
  have hm : Member.Coherent { lock := l } := (Run.nil.recorded hl).coherent
  have ht : (Member.after { lock := l } earlier).lock.timings = times := by
    obtain ⟨rfl, -, -⟩ := Lock.eq_of_create hl
    exact h.of_append.timings hm
  have hm := h.of_append.coherent hm
  cases h.from_append.of_append with
  | cons holder _ st =>
    rw [← after_append] at st
    rcases hc.of_append.2 with hc | ⟨r, hi⟩
    · have hu := hc.underway holder hm ht
      rw [← after_append] at hu
      exact hu.settled st hr
    · obtain ⟨w, listed, r', hi', -⟩ := hr
      rw [hi] at hi'
      cases hi'

/-- A call that has taken the lock holds it by an entry that it created and then ranked first, and the
listing that did so was asked for when the settling time had passed since the creation, or when the
limit of the call was reached. -/
theorem acquired_settled (hl : Lock.create lockPrefix owner times strategy = .ok l)
    (h : History Punctual { lock := l } (call ++ earlier)) (hc : IsCall limit start call)
    (hd : (Member.after { lock := l } (call ++ earlier)).progress = some (.done .acquired)) :
    (∃ newer t older c a, call = newer ++ t :: older ∧
      HeldBy { lock := l } earlier newer t older c a) ∧
      ∀ newer t older c a, call = newer ++ t :: older →
        HeldBy { lock := l } earlier newer t older c a →
        Settled limit start times.settling c.time
          (Member.after { lock := l } (older ++ earlier)).since := by
  constructor
  · rw [after_append] at hd
    obtain ⟨newer, t, older, a, rfl, hr⟩ := hc.exists_rankedFirst h.from_append
      (h.of_append.coherent (Run.nil.recorded hl).coherent) ⟨_, hd, rfl⟩
    rw [← after_append] at hr
    obtain ⟨c, hlast, hce, -⟩ := hc.settled hl h hr
    refine ⟨newer, t, older, c, a, rfl, hr, hlast, hce, ?_⟩
    rw [List.append_assoc, List.cons_append] at h ⊢
    exact h.attempt_of_rankedFirst hc.of_append.1 hr
  · rintro newer t older c a rfl hheld
    obtain ⟨c', hlast, -, hs⟩ := hc.settled hl h hheld.ranked
    rw [hheld.last] at hlast
    cases hlast
    exact hs

end

/-- A call of a lock that nobody else wants holds it by an entry that it creates at once and ranks when
its settling pause is over. -/
lemma exists_heldBy (limit : WaitLimit) (asked : Instant)
    (hasked : (⟨0, limit⟩ : Window).cut 0 Timings.recommended.settling ≤ asked) :
    ∃ l t older c a, Lock.create "p" ⟨"a"⟩ .recommended .counter = .ok l ∧
      History Punctual { lock := l } (t :: older) ∧ IsCall limit 0 (t :: older) ∧
      (Member.after { lock := l } (t :: older)).progress = some (.done .acquired) ∧
      HeldBy { lock := l } [] [] t older c a ∧ c.time = 0 ∧
      (Member.after { lock := l } older).since = asked := by
  obtain ⟨l, e, hl, -, he, hfirst, h, hafter⟩ := exists_alone limit asked hasked
  refine ⟨l, _, _, _, ⟨e, 0⟩, hl, h, isCall_poll, ?_, ⟨⟨_, _, _, rfl, he, hfirst⟩, rfl, rfl, ?_⟩,
    rfl, rfl⟩
  · exact congrArg progress hafter
  · rw [List.append_nil]
    exact (congrArg (fun m => m.lock.attempt) hafter).trans (Lock.observe_attempt.trans he)

/-- A call that may wait for three seconds, less than the settling time, takes a lock that nobody else
wants when they are over. -/
theorem acquired_at_limit : ∃ l t older c a,
    Lock.create "p" ⟨"a"⟩ .recommended .counter = .ok l ∧
      History Punctual { lock := l } (t :: older ++ []) ∧ IsCall (some 3000000000) 0 (t :: older) ∧
      (Member.after { lock := l } (t :: older ++ [])).progress = some (.done .acquired) ∧
      HeldBy { lock := l } [] [] t older c a ∧
      Settled (some 3000000000) 0 Timings.recommended.settling c.time
        (Member.after { lock := l } (older ++ [])).since := by
  obtain ⟨l, t, older, c, a, hl, h, hc, hd, hheld, -, -⟩ :=
    exists_heldBy (some 3000000000) 3000000000 (by decide)
  rw [← List.append_nil (t :: older)] at hd h
  obtain ⟨-, hsettled⟩ := acquired_settled hl h hc hd
  exact ⟨l, t, older, c, a, hl, h, hc, hd, hheld, hsettled [] t older c a rfl hheld⟩

/-- A call that may not wait at all takes a lock that nobody else wants in the moment in which it
creates its entry. -/
theorem acquired_unsettled : ∃ l t older c a,
    Lock.create "p" ⟨"a"⟩ .recommended .counter = .ok l ∧
      History Punctual { lock := l } (t :: older) ∧ IsCall (some 0) 0 (t :: older) ∧
      (Member.after { lock := l } (t :: older)).progress = some (.done .acquired) ∧
      HeldBy { lock := l } [] [] t older c a ∧
      ¬ c.time + Timings.recommended.settling ≤ (Member.after { lock := l } older).since := by
  obtain ⟨l, t, older, c, a, hl, h, hc, hd, hheld, hcreated, hasked⟩ :=
    exists_heldBy (some 0) 0 (by decide)
  refine ⟨l, t, older, c, a, hl, h, hc, hd, hheld, ?_⟩
  rw [hcreated, hasked]
  decide

end Member

end StoreLock
