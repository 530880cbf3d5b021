import StoreLock.Proofs.Lock.Ending
import StoreLock.Proofs.Lock.Limit
import StoreLock.Proofs.Lock.Watch

/-!
# Calls whose wait has run out

A call looks at its limit when it has ranked its entry and others come first. It does not where it takes its entry
for gone: then it starts over, whether or not there is time left. So a call whose wait has run out gives up after a
ranking that is not won if the listing has shown its entry, or the entry is not older than the timeout, and
otherwise it lists the queue again to create another entry (`Member.gives_up_or_starts_over`).

Between the listing and the standing that it comes to, the stale entries are deleted one by one (`Evaluating`).
After that a call that gives up has one step left, and one that starts over has its next two fixed.
-/

namespace StoreLock

/-- Whether a listing shows an entry that can be read back. -/
def Shows (listed : List String) (e : Entry) : Prop :=
  e.name ∈ listed ∧ Entry.read e.name = .ok e

namespace Member

/-- After these steps, of which the latest stands first, a call has at most asked for the deletion of its entry and
then ended because its wait has run out. -/
inductive GivesUp (own : String) : List Taken → Prop where
  | asked : GivesUp own []
  | ended {t} :
    t.input.request? = some (.delete own) →
    t.member.progress = some (.done .gaveUp) →
    t.member.lock.state = .idle →
    GivesUp own [t]

/-- In these steps, of which the latest stands first, a call deletes what may be left of its entry and then lists
the queue behind which it creates another. -/
inductive StartsOver (own : String) : List Taken → Prop where
  | asked : StartsOver own []
  | deleted {t w} :
    t.input.request? = some (.delete own) →
    t.member.progress = some (.request (.seeding w)) →
    StartsOver own [t]
  | listed {t t' later w answer r} :
    t.input.request? = some (.delete own) →
    t'.input = .answer (.seeding w) answer r →
    StartsOver own (later ++ [t', t])

/-- A call whose entry has come to this standing, with the stale names that are left to be deleted first. -/
inductive Evaluating (a : Attempt) (w : Window) (st : Lock.Standing) : List String → Member → Prop where
  | concluded {l : Lock} {r : Reading} :
    l.attempt = some a →
    Evaluating a w st [] (ofTurn (l.conclude w st r) r.now)
  | deleting {m : Member} {name rest} :
    m.lock.attempt = some a →
    m.progress = some (.request (.reclaiming w st name rest)) →
    Evaluating a w st (name :: rest) m

/-- The steps in which a call ranks the entry of an attempt: it receives a listing, and then deletes what is stale
in it. -/
structure Evaluates (m : Member) (steps : List Taken) (w : Window) (a : Attempt) (listed : List String)
    (r : Reading) : Prop where
  attempt : m.lock.attempt = some a
  steps : ∃ deletions t, steps = deletions ++ [t] ∧ t.input = .answer (.ranking w) (.ok listed) r ∧
    (∀ t' ∈ deletions, t'.input.GoesOn) ∧
    deletions.length = ((m.lock.observe listed r.now).stale a.entry listed r.now).length

variable {m m' : Member} {input : Input} {allowed : Member → Input → Prop} {steps later : List Taken}
  {a : Attempt} {w : Window} {st : Lock.Standing} {names listed : List String} {r : Reading} {own : String}

/-! ## Evaluations -/

lemma reclaim_evaluating {l : Lock} (ha : l.attempt = some a) (w : Window) (st : Lock.Standing)
    (names : List String) (r : Reading) :
    Evaluating a w st names (ofTurn (l.reclaim w st names r) r.now) := by
  cases names with
  | nil => exact .concluded ha
  | cons name rest => exact .deleting ha rfl

/-- A call that has stale names left goes on with the next of them, whatever the store answers. -/
lemma Evaluating.step {name : String} (h : Evaluating a w st (name :: names) m) (hst : Step m input m')
    (hon : input.GoesOn) : Evaluating a w st names m' := by
  cases h with
  | deleting ha hp =>
    obtain ⟨answer, r, -, rfl⟩ := hst.of_request hon hp
    exact reclaim_evaluating ha w st names r

/-- As many steps later as there were names left, the call goes on as its standing asks for. -/
lemma Evaluating.history (h : Evaluating a w st names m) (hist : History allowed m steps)
    (hon : ∀ t ∈ steps, t.input.GoesOn) (hlen : steps.length ≤ names.length) :
    Evaluating a w st (names.drop steps.length) (m.after steps) := by
  induction hist with
  | nil => exact h
  | @cons steps t _ _ hst ih =>
    have hbefore := ih (fun t' ht' => hon t' (List.mem_cons_of_mem _ ht')) (Nat.le_of_succ_le hlen)
    rw [List.drop_eq_getElem_cons hlen] at hbefore
    exact hbefore.step hst (hon t List.mem_cons_self)

/-- An evaluation that ends comes to the standing of the listing. -/
lemma Evaluates.evaluating (h : Evaluates m steps w a listed r) (hist : History allowed m steps) :
    Evaluating a w ((m.lock.observe listed r.now).standing a listed r.now) [] (m.after steps) := by
  obtain ⟨deletions, t, rfl, hi, hon, hlen⟩ := h.steps
  have hdeletions := hist.from_append
  cases hist.of_append with
  | cons hnil _ st =>
    cases hnil
    cases t with
    | mk input m' =>
      subst hi
      cases st
      have hjudge : Evaluating a w ((m.lock.observe listed r.now).standing a listed r.now)
          ((m.lock.observe listed r.now).stale a.entry listed r.now)
          (ofTurn (m.lock.judge w listed r) r.now) := by
        rw [Lock.judge, h.attempt]
        exact reclaim_evaluating (Lock.observe_attempt.trans h.attempt) w _ _ r
      have hend := hjudge.history hdeletions hon hlen.le
      rw [hlen, List.drop_length] at hend
      rw [after_append]
      exact hend

/-- Where the wait has run out, a call whose entry is not first and not gone gives up. -/
lemma Evaluating.abandons (h : Evaluating a w .waiting [] m) (hover : w.isOver m.since = true) :
    m.progress = some (.request (.abandoning a.entry.name .gaveUp)) := by
  cases h with
  | @concluded l r ha =>
    have hover : w.isOver r.now = true := hover
    have hturn : l.conclude w .waiting r =
        (({ l with state := .failed } : Lock).withoutAttempt, .request (.abandoning a.entry.name .gaveUp)) := by
      rw [Lock.conclude, if_pos hover, Lock.abandon, ha]
    rw [hturn]
    rfl

/-- A call whose entry is gone discards what may be left of it, whether or not there is time left. -/
lemma Evaluating.discards (h : Evaluating a w .reclaimed [] m) :
    m.progress = some (.request (.discarding w a.entry.name)) := by
  cases h with
  | @concluded l r ha =>
    have hturn : l.conclude w .reclaimed r =
        (l.withoutAttempt, .request (.discarding w a.entry.name)) := by
      rw [Lock.conclude, ha]
    rw [hturn]
    rfl

/-- A call that deletes its entry because its wait has run out does nothing else. -/
lemma History.givesUp (h : History allowed m later) (hon : ∀ t ∈ later, t.input.GoesOn)
    (hp : m.progress = some (.request (.abandoning own .gaveUp))) : GivesUp own later := by
  induction h with
  | nil => exact .asked
  | @cons later t _ _ st ih =>
    cases ih fun t' ht' => hon t' (List.mem_cons_of_mem _ ht') with
    | asked =>
      obtain ⟨answer, r, hi, hm⟩ := st.of_request (hon t List.mem_cons_self) hp
      exact .ended (by rw [hi]; rfl) (by rw [hm]; rfl) (by rw [hm]; rfl)
    | @ended t' _ hdone _ =>
      refine absurd (hon t List.mem_cons_self) (st.not_goesOn ?_)
      rw [after_cons, IsResting, hdone]
      trivial

/-- A call that discards its entry lists the queue after that. -/
lemma History.startsOver (h : History allowed m later) (hon : ∀ t ∈ later, t.input.GoesOn)
    (hp : m.progress = some (.request (.discarding w own))) : StartsOver own later := by
  induction h with
  | nil => exact .asked
  | @cons later t _ _ st ih =>
    cases ih fun t' ht' => hon t' (List.mem_cons_of_mem _ ht') with
    | asked =>
      obtain ⟨answer, r, hi, hm⟩ := st.of_request (hon t List.mem_cons_self) hp
      exact .deleted (by rw [hi]; rfl) (by rw [hm]; rfl)
    | @deleted t₁ _ hrequest hseeding =>
      rw [after_cons] at st
      obtain ⟨answer, r, hi, -⟩ := st.of_request (hon t List.mem_cons_self) hseeding
      show StartsOver own ([] ++ [t, t₁])
      exact .listed hrequest hi
    | @listed t₁ t₂ later _ _ _ hrequest hi =>
      show StartsOver own ((t :: later) ++ [t₂, t₁])
      exact .listed hrequest hi

/-! ## The limit of a call -/

/-- The wait of a call is as long as its limit, and begins with the call if the lock was idle. -/
lemma IsCall.span {limit : WaitLimit} {start : Instant} {call : List Taken} {s : Span}
    (hc : IsCall limit start call) (h : History allowed m call) (hs : (m.after call).span? = some s) :
    s.limit = limit ∧ (m.lock.state = .idle → s.start = some start) := by
  induction hc generalizing s with
  | @begins t r hi hstart =>
    cases h with
    | cons _ _ st =>
      rw [hi, after_nil] at st
      rw [after_cons, st.of_acquire] at hs
      have hspan : (m.lock.acquire limit r).2.span? = some s := hs
      refine ⟨?_, ?_⟩
      · rcases Lock.acquire_span? hspan with rfl | rfl <;> rfl
      · intro hidle
        rw [Lock.acquire, hidle] at hspan
        rw [Lock.start_span? hspan, hstart]
  | @goesOn t call hc hon ih =>
    cases h with
    | cons h _ st =>
      rcases st.span hs with hbefore | ⟨hbefore, -⟩ | ⟨r, hi, -⟩
      · exact ih h hbefore
      · obtain ⟨hlimit, hstart⟩ := ih h hbefore
        exact ⟨hlimit, fun hidle => by cases hstart hidle⟩
      · rw [hi] at hon
        exact hon.elim

end Member

/-- Among the entries that count is an own one if and only if it is listed and can be read back. -/
lemma Lock.own_mem_eligible_iff {l : Lock} {a : Attempt} {listed : List String} {now : Instant}
    (ha : a.entry.lockPrefix = l.lockPrefix) :
    a.entry ∈ l.eligible a.entry listed now ↔ Shows listed a.entry := by
  rw [mem_eligible]
  constructor
  · intro h
    obtain ⟨n, hn, hq, -⟩ := h
    obtain ⟨hread, -⟩ := queued?_eq_some.mp hq
    obtain ⟨rfl, -⟩ := Entry.name_of_read hread
    exact ⟨hn, hread⟩
  · intro h
    refine ⟨a.entry.name, h.1, queued?_eq_some.mpr ⟨h.2, ha⟩, ?_⟩
    simp [isReclaimable]

namespace Member

section

variable {lockPrefix : String} {owner : OwnerId} {times : Timings} {strategy : Strategy} {l : Lock}
  {most : Duration} {start : Instant} {evaluation older earlier : List Taken}

/-- A call with a limit, of which the wait counts from its beginning, or from when nothing is left of an earlier
call. If the wait has run out by the time at which the call has ranked its entry, and the entry is not first, then
the call asks for the deletion of its entry. Where the listing has shown the entry, or the entry is not older than
the timeout, it gives up after that and does nothing else; otherwise it starts over with another listing. -/
theorem gives_up_or_starts_over (hl : Lock.create lockPrefix owner times strategy = .ok l)
    (h : History allowed { lock := l } (later ++ (evaluation ++ (older ++ earlier))))
    (hc : IsCall (some most) start (later ++ (evaluation ++ older)))
    (he : Evaluates (Member.after { lock := l } (older ++ earlier)) evaluation w a listed r)
    (hfirst : ((Member.after { lock := l } (older ++ earlier)).lock.observe listed r.now).standing a listed
      r.now ≠ .first)
    (hover : w.start + most ≤ (Member.after { lock := l } (evaluation ++ (older ++ earlier))).since) :
    (w.limit = some most ∧
      ((Member.after { lock := l } earlier).lock.state = .idle → w.start = start)) ∧
    (∃ phase, phase.request = .delete a.entry.name ∧
      (Member.after { lock := l } (evaluation ++ (older ++ earlier))).progress = some (.request phase)) ∧
    (Shows listed a.entry ∨ r.now ≤ a.createdAt + times.timeout → GivesUp a.entry.name later) ∧
    (¬ (Shows listed a.entry ∨ r.now ≤ a.createdAt + times.timeout) → StartsOver a.entry.name later) := by
  have recorded := h.of_append.of_append.run.recorded hl
  have heval := he.evaluating h.of_append.from_append
  rw [← after_append] at heval
  obtain ⟨deletions, t, hsteps, hi, hon, -⟩ := he.steps
  -- The call was ranking its entry before the evaluation, in the window that it has had from its beginning on.
  have hspan : (Member.after { lock := l } (older ++ earlier)).span? = some w.span := by
    have hranking := h.of_append
    rw [hsteps, List.append_assoc, List.singleton_append] at hranking
    cases hranking.of_append with
    | cons _ _ st =>
      rw [hi] at st
      rw [span?, st.progress_of_answer]
      rfl
  have hcall : IsCall (some most) start older ∧ ∀ t' ∈ later, t'.input.GoesOn := by
    rw [hsteps, List.append_assoc, List.singleton_append, ← List.append_assoc] at hc
    obtain ⟨hnewer, hbegins⟩ := hc.of_append
    refine ⟨hbegins.resolve_right ?_, fun t' ht' => hnewer t' (List.mem_append_left _ ht')⟩
    rintro ⟨r', hi'⟩
    cases hi.symm.trans hi'
  obtain ⟨hlimit, hidle⟩ := hcall.1.span h.of_append.of_append.from_append (by rwa [← after_append])
  have hlater : History allowed (Member.after { lock := l } (evaluation ++ (older ++ earlier))) later :=
    h.from_append
  have hgone : ((Member.after { lock := l } (older ++ earlier)).lock.observe listed r.now).standing a listed
      r.now = .reclaimed ↔ ¬ (Shows listed a.entry ∨ r.now ≤ a.createdAt + times.timeout) := by
    have hpre := (recorded.created _ (recorded.attempt a he.attempt)).1
    rw [← recorded.prefix_eq, ← Lock.observe_lockPrefix] at hpre
    rw [Lock.standing_eq_reclaimed_iff, Lock.own_mem_eligible_iff hpre, Lock.observe_timings,
      recorded.timeout_eq, not_or, not_le]
  refine ⟨⟨hlimit, fun hs => Option.some.inj (hidle hs)⟩, ?_⟩
  cases hst : ((Member.after { lock := l } (older ++ earlier)).lock.observe listed r.now).standing a listed
    r.now with
  | first => exact absurd hst hfirst
  | waiting =>
    rw [hst] at heval hgone
    have hover' : w.isOver (Member.after { lock := l } (evaluation ++ (older ++ earlier))).since = true := by
      have hlimit : w.limit = some most := hlimit
      rw [Window.isOver, hlimit]
      exact decide_eq_true (Nat.le_sub_of_add_le' hover)
    have hp := heval.abandons hover'
    refine ⟨⟨_, rfl, hp⟩, fun _ => hlater.givesUp hcall.2 hp, ?_⟩
    intro hnot
    cases hgone.mpr hnot
  | reclaimed =>
    rw [hst] at heval hgone
    have hp := heval.discards
    refine ⟨⟨_, rfl, hp⟩, ?_, fun _ => hlater.startsOver hcall.2 hp⟩
    intro hshown
    exact absurd hshown (hgone.mp rfl)

end

lemma standing_nil {l : Lock} {now : Instant} :
    l.standing a [] now = if l.timings.timeout < now - a.createdAt then .reclaimed else .waiting := by
  rw [Lock.standing, if_neg]
  simp [Lock.eligible]

/-- A call that may not wait ranks its entry in an empty listing at `late`. -/
lemma exists_unseen (late : Instant) : ∃ l e t older,
    Lock.create "p" ⟨"a"⟩ .recommended .counter = .ok l ∧
      History Punctual { lock := l } (t :: older) ∧ IsCall (some 0) 0 (t :: older) ∧
      Evaluates (Member.after { lock := l } older) [t] ⟨0, some 0⟩ ⟨e, 0⟩ [] (.calm late) ∧
      ((Member.after { lock := l } older).lock.observe [] late).standing ⟨e, 0⟩ [] late =
        (if Timings.recommended.timeout < late then .reclaimed else .waiting) ∧
      t.member.since = late := by
  obtain ⟨l, e, hl, -, he, -⟩ := exists_alone (some 0) late (Nat.zero_le _)
  obtain ⟨hidle, htimings⟩ : l.state = .idle ∧ l.timings = .recommended := by
    rw [(Lock.eq_of_create hl).1]
    exact ⟨rfl, rfl⟩
  let t : Taken := ⟨.answer (.ranking ⟨0, some 0⟩) (.ok []) (.calm late),
    ofTurn ((l.entered [] 0).judge ⟨0, some 0⟩ [] (.calm late)) late⟩
  have hpoll : poll l (some 0) [] [] e 0 late = t :: (poll l (some 0) [] [] e 0 late).tail := rfl
  have h : History Punctual { lock := l } (poll l (some 0) [] [] e 0 late) :=
    history_poll hidle he (Nat.zero_le late)
  have hc : IsCall (some 0) 0 (poll l (some 0) [] [] e 0 late) := isCall_poll
  rw [hpoll] at h hc
  have hsteps : Evaluates (Member.after { lock := l } (poll l (some 0) [] [] e 0 late).tail) [t] ⟨0, some 0⟩
      ⟨e, 0⟩ [] (.calm late) := by
    refine ⟨he, [], t, rfl, rfl, ?_, ?_⟩
    · simp
    · simp [Lock.stale]
  have ht : (Member.after { lock := l } (poll l (some 0) [] [] e 0 late).tail).lock.timings = .recommended := by
    show ({ l with state := .acquiring }.observe [] 0 : Lock).timings = _
    rw [Lock.observe_timings, htimings]
  refine ⟨l, e, t, _, hl, h, hc, hsteps, ?_, rfl⟩
  rw [standing_nil, Lock.observe_timings, ht, Nat.sub_zero]

/-- A request is answered at no set time. -/
lemma Punctual.of_request {phase : Lock.Phase} (hp : m.progress = some (.request phase))
    (hnow : m.since ≤ input.reading.now) : Punctual m input := by
  refine ⟨hnow, ?_⟩
  intro d rest r hp'
  cases hp.symm.trans hp'

/-- A call that may not wait and does not find its entry gives up while the entry is not older than the timeout. -/
theorem gives_up_unseen : ∃ l e t t' older,
    Lock.create "p" ⟨"a"⟩ .recommended .counter = .ok l ∧
      History Punctual { lock := l } ([t'] ++ ([t] ++ (older ++ []))) ∧
      IsCall (some 0) 0 ([t'] ++ ([t] ++ older)) ∧
      Evaluates (Member.after { lock := l } (older ++ [])) [t] ⟨0, some 0⟩ ⟨e, 0⟩ [] (.calm 5) ∧
      GivesUp e.name [t'] ∧ t'.member.progress = some (.done .gaveUp) := by
  obtain ⟨l, e, t, older, hl, h, hc, he, hst, ht⟩ := exists_unseen 5
  have hwaiting : ((Member.after { lock := l } older).lock.observe [] 5).standing ⟨e, 0⟩ [] 5 = .waiting :=
    hst.trans (if_neg (by decide))
  have h₁ : History Punctual { lock := l } ([t] ++ older) := h
  have heval := he.evaluating h₁.from_append
  have hp : t.member.progress = some (.request (.abandoning e.name .gaveUp)) := by
    rw [Reading.calm, hwaiting] at heval
    apply heval.abandons
    rfl
  let t' : Taken := ⟨.answer (.abandoning e.name .gaveUp) (.ok ()) (.calm 5),
    ofTurn (t.member.lock.resume (.abandoning e.name .gaveUp) (.ok ()) (.calm 5)) 5⟩
  have hend : History Punctual { lock := l } ([t'] ++ ([t] ++ (older ++ []))) := by
    rw [List.append_nil]
    exact .cons h (.of_request hp ht.le) (.answered hp rfl)
  have hcall : IsCall (some 0) 0 ([t'] ++ ([t] ++ older)) := .goesOn hc trivial
  have hyoung : 5 ≤ 0 + Timings.recommended.timeout := by decide
  rw [← List.append_nil older] at he hwaiting
  obtain ⟨-, -, hgives, -⟩ := gives_up_or_starts_over hl hend hcall he (by rw [Reading.calm, hwaiting]; decide)
    (Nat.zero_le _)
  exact ⟨l, e, t, t', older, hl, hend, hcall, he, hgives (.inr hyoung), rfl⟩

/-- The call starts over, although it may not wait, once the entry that it does not find is older than the timeout. -/
theorem starts_over_after_limit : ∃ l e t t₁ t₂ older,
    Lock.create "p" ⟨"a"⟩ .recommended .counter = .ok l ∧
      History Punctual { lock := l } ([t₂, t₁] ++ ([t] ++ (older ++ []))) ∧
      IsCall (some 0) 0 ([t₂, t₁] ++ ([t] ++ older)) ∧
      Evaluates (Member.after { lock := l } (older ++ [])) [t] ⟨0, some 0⟩ ⟨e, 0⟩ [] (.calm 901000000000) ∧
      ((Member.after { lock := l } (older ++ [])).lock.observe [] 901000000000).standing ⟨e, 0⟩ []
        901000000000 ≠ .first ∧
      0 + 0 ≤ (Member.after { lock := l } ([t] ++ (older ++ []))).since ∧
      t₂.input.request? = some .list ∧
      ∃ phase n contents, phase.request = .create n contents ∧ t₂.member.progress = some (.request phase) := by
  obtain ⟨l, e, t, older, hl, h, hc, he, hst, ht⟩ := exists_unseen 901000000000
  have hgone : ((Member.after { lock := l } older).lock.observe [] 901000000000).standing ⟨e, 0⟩ []
      901000000000 = .reclaimed := hst.trans (if_pos (by decide))
  have h₁ : History Punctual { lock := l } ([t] ++ older) := h
  have heval := he.evaluating h₁.from_append
  have hp : t.member.progress = some (.request (.discarding ⟨0, some 0⟩ e.name)) := by
    rw [Reading.calm, hgone] at heval
    exact heval.discards
  let r : Reading := .calm 901000000000
  let t₁ : Taken := ⟨.answer (.discarding ⟨0, some 0⟩ e.name) (.ok ()) r,
    ofTurn (t.member.lock.resume (.discarding ⟨0, some 0⟩ e.name) (.ok ()) r) r.now⟩
  have hp₁ : t₁.member.progress = some (.request (.seeding ⟨0, some 0⟩)) := rfl
  let t₂ : Taken := ⟨.answer (.seeding ⟨0, some 0⟩) (.ok []) r,
    ofTurn (t₁.member.lock.resume (.seeding ⟨0, some 0⟩) (.ok []) r) r.now⟩
  have hend : History Punctual { lock := l } ([t₂, t₁] ++ ([t] ++ (older ++ []))) := by
    rw [List.append_nil]
    exact .cons (.cons h (.of_request hp ht.le) (.answered hp rfl)) (.of_request hp₁ le_rfl) (.answered hp₁ rfl)
  have hcall : IsCall (some 0) 0 ([t₂, t₁] ++ ([t] ++ older)) := .goesOn (.goesOn hc trivial) trivial
  obtain ⟨sequence, sequencer, contents, hreg⟩ := t₁.member.lock.register_eq ⟨0, some 0⟩ [] r
  rw [← List.append_nil older] at he hgone
  let e' : Entry := ⟨t₁.member.lock.lockPrefix, sequence, t₁.member.lock.owner⟩
  have hcreate : t₂.member.progress = some (.request (.creating ⟨0, some 0⟩ e' contents)) := by
    show some (t₁.member.lock.register ⟨0, some 0⟩ [] r).2 = _
    rw [hreg]
  exact ⟨l, e, t, t₁, t₂, older, hl, hend, hcall, he, by rw [hgone]; decide, Nat.zero_le _, rfl,
    .creating ⟨0, some 0⟩ e' contents, e'.name, contents, rfl, hcreate⟩

end Member

end StoreLock
