import StoreLock.Proofs.Lock.Limit
import StoreLock.Proofs.Lock.Quitting

/-!
# Calls whose caller wants them to end

A call looks whether its caller wants it to end when it starts, and wherever it would pause. So a call that is to
end does not pause any more: it goes on until it would, and gives up there, unless the evaluation in progress comes
to an end before that or the store fails it (`Member.Decides`). Up to then it has only so many answers to wait for
(`Member.WindsUp`): nothing but a pause leads to another listing that ranks its entry.

One lemma says what an answer does to such a call (`Member.Step.windsUp`), and a call that is to end winds up by
induction over its steps (`Member.History.windsUp`).
-/

namespace StoreLock

/-- How many answers there may be, besides one for each listed name, before the one that decides how a call ends
that does not pause any more; nothing if that is decided. -/
def Lock.Phase.undecided? : Lock.Phase → Option Nat
  | .clearing _ _ => some 0
  | .seeding _ => some 1
  | .creating _ _ _ => some 0
  | .ranking _ => some 3
  | .reclaiming _ _ _ rest => some (rest.length + 3)
  | .discarding _ _ => some 2
  | .abandoning _ _ => none
  | .releasing _ => none

/-- How many names an input lists. -/
def Input.listedCount (input : Input) : Nat :=
  (input.listing?.getD []).length

/-- How many names the inputs of some steps list together. -/
def listedCount (steps : List Taken) : Nat :=
  (steps.map (·.input.listedCount)).sum

namespace Member

/-- An input with which a call looks for the first time whether its caller wants it to end: its beginning, if the
lock has no entry from before, and otherwise the answer to the deletion of that entry. -/
inductive Checks (m : Member) : Input → Prop where
  | acquire {limit r} :
    m.lock.attempt = none →
    Checks m (.acquire limit r)
  | cleared {limit name answer r} :
    Checks m (.answer (.clearing limit name) answer r)

/-- The answer with which the evaluation of the own entry ends, with the window of the call and the standing that it
has come to: a listing that shows nothing stale, or the answer to the deletion of the last stale name. -/
inductive Concludes (m : Member) (w : Window) : Lock.Standing → Input → Prop where
  | listed {a listed r} :
    m.lock.attempt = some a →
    (m.lock.observe listed r.now).stale a.entry listed r.now = [] →
    Concludes m w ((m.lock.observe listed r.now).standing a listed r.now) (.answer (.ranking w) (.ok listed) r)
  | deleted {st name answer r} :
    Concludes m w st (.answer (.reclaiming w st name []) answer r)

/-- An answer that decides how a call ends whose caller wants it to, with the steps that follow. -/
inductive Decides (m : Member) (t : Taken) : List Taken → Prop where
  /-- It is the first time that the call looks, and it ends at once. -/
  | unstarted {later} :
    Checks m t.input →
    Quits (.failed .cancelled) t.member none later →
    Decides m t later
  /-- The entry has been created, and the call gives up instead of pausing. -/
  | created {e later} :
    t.input.created? = some e →
    Quits (.failed .cancelled) t.member (some e.name) later →
    Decides m t later
  /-- The entry has been ranked, others come first and there is time left; the call gives up instead of pausing. -/
  | cancelled {w later} :
    Concludes m w .waiting t.input →
    w.isOver t.time = false →
    Quits (.failed .cancelled) t.member m.lock.entryName? later →
    Decides m t later
  /-- The entry has been ranked, others come first and there is no time left. -/
  | gaveUp {w later} :
    Concludes m w .waiting t.input →
    w.isOver t.time = true →
    Quits .gaveUp t.member m.lock.entryName? later →
    Decides m t later
  /-- The entry has been ranked first, and the lock is held. -/
  | acquired {w} :
    Concludes m w .first t.input →
    t.member.progress = some (.done .acquired) →
    t.member.lock.state = .held →
    Decides m t []
  /-- The store has failed to list or to create. -/
  | failed {e later} :
    t.input.failure? = some e →
    Quits (.failed (.store e)) t.member m.lock.entryName? later →
    Decides m t later

/-- An answer that decides nothing: the store has not failed, no entry has been created, the call does not look whether
it is to end, and if the evaluation has ended, the entry was gone. -/
structure Passes (m : Member) (input : Input) : Prop where
  failure : input.failure? = none
  created : input.created? = none
  checks : ¬ Checks m input
  concluded : ∀ w st, Concludes m w st input → st = .reclaimed

/-- An answer that decides nothing, but takes the call to where it waits for fewer than so many more. -/
def Nears (m : Member) (t : Taken) (n : Nat) : Prop :=
  Passes m t.input ∧
    ∃ phase k, t.member.progress = some (.request phase) ∧ phase.undecided? = some k ∧ k + 1 ≤ n

/-- Whether none of some steps decides how the call ends. -/
def Pass (m : Member) (steps : List Taken) : Prop :=
  ∀ newer t older, steps = newer ++ t :: older → Passes (m.after older) t.input

/-- How a call goes on that waits in this phase and does not pause any more: it waits for another answer, one of its
answers has decided how it ends, or it had given up before. -/
inductive WindsUp (m : Member) : Lock.Phase → List Taken → Prop where
  | waiting {phase phase' steps n k} :
    phase.undecided? = some n →
    (m.after steps).progress = some (.request phase') →
    phase'.undecided? = some k →
    m.Pass steps →
    steps.length + k ≤ n + listedCount steps →
    WindsUp m phase steps
  | decided {phase later t steps n} :
    phase.undecided? = some n →
    m.Pass steps →
    steps.length ≤ n + listedCount steps →
    Decides (m.after steps) t later →
    WindsUp m phase (later ++ t :: steps)
  | quitting {own o later} :
    Quits o m (some own) later →
    WindsUp m (.abandoning own o) later

variable {allowed : Member → Input → Prop} {m m' : Member} {input : Input} {t : Taken} {l : Lock} {w : Window}
  {st : Lock.Standing} {r : Reading} {phase : Lock.Phase} {steps later call : List Taken} {limit : WaitLimit}
  {start : Instant} {n : Nat}

/-! ## The first check -/

lemma start_quits (ha : l.attempt = none) (limit : WaitLimit) (hr : r.cancelled = true) (now : Instant) :
    Quits (.failed .cancelled) (ofTurn (l.start limit r) now) none [] := by
  have h := abandon_quits { l with state := .acquiring } (.failed .cancelled) now
  have hnone : ({ l with state := .acquiring } : Lock).entryName? = none := by
    rw [Lock.entryName?, ha]
    rfl
  rw [hnone] at h
  rw [Lock.start, if_pos hr]
  exact h

/-- A call that is to end when it looks for the first time ends there. -/
lemma Step.of_checks (hst : Step m input m') (hk : Checks m input) (hs : m.lock.state ≠ .held) (hm : m.Tidy)
    (hr : input.reading.cancelled = true) : Quits (.failed .cancelled) m' none [] := by
  cases hk with
  | acquire ha =>
    rw [hst.of_acquire, Lock.acquire]
    split
    case h_1 hheld => exact absurd hheld hs
    case h_2 => exact start_quits ha _ hr _
    case h_3 =>
      rw [ha]
      exact start_quits rfl _ hr _
    case h_4 =>
      rw [ha]
      exact start_quits rfl _ hr _
  | @cleared limit name answer r =>
    have hnone : m.lock.attempt = none := by
      refine hm.leaving name ?_
      rw [leaving?, hst.progress_of_answer]
      rfl
    rw [hst.of_answer]
    exact start_quits (l := { m.lock with state := .idle }) hnone limit hr _

/-- The wait of a call has begun to count, except while what is left of a call from before is deleted. -/
lemma clearing_of_span? (h : m.span? = some ⟨limit, none⟩) :
    ∃ name, m.progress = some (.request (.clearing limit name)) := by
  rw [span?] at h
  obtain ⟨p, hp, h⟩ := Option.bind_eq_some_iff.mp h
  cases p with
  | request phase =>
    cases phase with
    | clearing limit name =>
      cases h
      exact ⟨name, hp⟩
    | _ => cases h
  | pause d rest => cases h
  | done o => cases h

/-- What is left of a call from before is deleted before a call does anything else. -/
lemma IsCall.eq_of_clearing (hc : IsCall limit start call) (h : History allowed m call) {name : String}
    {limit' : WaitLimit} (hp : (m.after call).progress = some (.request (.clearing limit' name))) :
    ∃ t, call = [t] := by
  cases hc with
  | @begins t => exact ⟨t, rfl⟩
  | @goesOn t call hc hon =>
    cases h with
    | cons h _ hst =>
      rw [after_cons] at hp
      have hspan : t.member.span? = some ⟨limit', none⟩ := by
        rw [span?, hp]
        rfl
      -- The wait of the call would have begun to count with this step, if not before.
      rcases hst.span hspan with hbefore | ⟨-, hstart⟩ | ⟨r, hi, -⟩
      · obtain ⟨name', hp'⟩ := clearing_of_span? hbefore
        obtain ⟨answer, r, -, hm'⟩ := hst.of_request hon hp'
        rw [hm'] at hspan
        cases Lock.start_span? hspan
      · cases hstart
      · rw [hi] at hon
        exact hon.elim

/-! ## Answers that decide -/

lemma Concludes.standing_eq {w' : Window} {st' : Lock.Standing} (h : Concludes m w st input)
    (h' : Concludes m w' st' input) : st' = st := by
  cases h with
  | listed ha _ =>
    cases h' with
    | listed ha' _ =>
      cases ha.symm.trans ha'
      rfl
  | deleted =>
    cases h'
    rfl

/-- An evaluation that finds the entry gone decides nothing. -/
lemma Concludes.passes (h : Concludes m w st input) (hgone : st = .reclaimed) : Passes m input := by
  refine ⟨?_, ?_, ?_, fun _ _ h' => (h.standing_eq h').trans hgone⟩
  · cases h <;> rfl
  · cases h <;> rfl
  · intro hk
    cases h <;> cases hk

lemma Nears.mono {k : Nat} (h : m.Nears t n) (hle : n ≤ k) : m.Nears t k := by
  obtain ⟨hpasses, phase, j, hp, hj, hn⟩ := h
  exact ⟨hpasses, phase, j, hp, hj, hn.trans hle⟩

lemma Pass.cons (h : m.Pass steps) (ht : Passes (m.after steps) t.input) : m.Pass (t :: steps) := by
  intro newer t' older he
  cases newer with
  | nil =>
    cases he
    exact ht
  | cons t'' newer =>
    cases he
    exact h newer t' older rfl

/-- A call whose evaluation has ended goes on as its standing asks for. -/
lemma Step.of_concludes {st : Lock.Standing} (hst : Step m input m') (hk : Concludes m w st input) :
    ∃ l : Lock, l.attempt = m.lock.attempt ∧ m' = ofTurn (l.conclude w st input.reading) input.reading.now := by
  cases hk with
  | @listed a listed r ha hstale =>
    refine ⟨m.lock.observe listed r.now, Lock.observe_attempt, ?_⟩
    have hjudge : m.lock.judge w listed r = (m.lock.observe listed r.now).conclude w
        ((m.lock.observe listed r.now).standing a listed r.now) r := by
      rw [Lock.judge, ha]
      simp only [hstale]
      rfl
    rw [hst.of_answer]
    exact congrArg (ofTurn · r.now) hjudge
  | deleted => exact ⟨m.lock, rfl, hst.of_answer⟩

/-- When an evaluation ends, it is decided how a call ends that is to end, unless its entry is gone. -/
lemma Step.decides_of_concludes (hst : Step m t.input t.member) (hk : Concludes m w st t.input)
    (ha : m.lock.attempt ≠ none) (hr : t.input.reading.cancelled = true) : Decides m t [] ∨ m.Nears t 3 := by
  obtain ⟨l, hattempt, hm'⟩ := hst.of_concludes hk
  have hentry : l.entryName? = m.lock.entryName? := by
    rw [Lock.entryName?, hattempt, Lock.entryName?]
  cases st with
  | first =>
    refine .inl (.acquired hk ?_ ?_)
    · rw [hm']
      rfl
    · rw [hm']
      rfl
  | waiting =>
    rw [Lock.conclude] at hm'
    split at hm'
    case isTrue hover =>
      refine .inl (.gaveUp hk hover ?_)
      rw [hm', ← hentry]
      exact abandon_quits { l with state := .failed } .gaveUp t.time
    case isFalse hover =>
      refine .inl (.cancelled hk (Bool.not_eq_true _ ▸ hover) ?_)
      rw [hm', Lock.pause, if_pos hr, ← hentry]
      exact abandon_quits l (.failed .cancelled) t.time
  | reclaimed =>
    obtain ⟨a, ha⟩ := Option.ne_none_iff_exists'.mp ha
    refine .inr ⟨hk.passes rfl, .discarding w a.entry.name, 2, ?_, rfl, Nat.le_refl 3⟩
    rw [hm', Lock.conclude, hattempt, ha]
    rfl

/-- An answer after which the call asks the store again. -/
lemma Step.nears {answer : phase.request.Answer} {phase' : Lock.Phase} {k : Nat}
    (hst : Step m t.input t.member) (hi : t.input = .answer phase answer r)
    (hpasses : Passes m (.answer phase answer r))
    (hturn : (m.lock.resume phase answer r).2 = .request phase') (hk : phase'.undecided? = some k)
    (hle : k + 1 ≤ n) : m.Nears t n := by
  rw [hi] at hst
  exact ⟨hi ▸ hpasses, phase', k, (congrArg (·.progress) hst.of_answer).trans (congrArg some hturn), hk, hle⟩

/-- An entry that has been created is deleted in place of the pause. -/
lemma Step.decides_of_created {entry : Entry} {contents : ByteArray} (hst : Step m t.input t.member)
    (hi : t.input = .answer (.creating w entry contents) (.ok ()) r) (hr : r.cancelled = true) :
    Decides m t [] := by
  refine .created (e := entry) (by rw [hi]; rfl) ?_
  have hpause : m.lock.resume (.creating w entry contents) (.ok ()) r =
      ({ m.lock with attempt := some ⟨entry, r.now⟩ } : Lock).abandon (.failed .cancelled) := by
    rw [Lock.resume, Lock.pause, if_pos hr]
  rw [hi] at hst
  rw [hst.of_answer, hpause]
  exact abandon_quits _ _ _

/-- A listing that ranks the own entry decides how a call ends that is to end, unless names are stale or the entry is
gone. -/
lemma Step.decides_of_listed {listed : List String} (hst : Step m t.input t.member)
    (hi : t.input = .answer (.ranking w) (.ok listed) r) (ha : m.lock.attempt ≠ none) (hr : r.cancelled = true) :
    Decides m t [] ∨ m.Nears t (3 + listed.length) := by
  obtain ⟨a, hattempt⟩ := Option.ne_none_iff_exists'.mp ha
  cases hstale : (m.lock.observe listed r.now).stale a.entry listed r.now with
  | nil =>
    have hk : Concludes m w ((m.lock.observe listed r.now).standing a listed r.now) t.input := by
      rw [hi]
      exact .listed hattempt hstale
    exact (hst.decides_of_concludes hk ha (by rw [hi]; exact hr)).imp_right (·.mono (Nat.le_add_right 3 _))
  | cons name rest =>
    have hlen : rest.length + 1 ≤ listed.length := by
      rw [← List.length_cons (a := name), ← hstale]
      exact List.length_filter_le _ _
    have hjudge : (m.lock.judge w listed r).2 = .request (.reclaiming w
        ((m.lock.observe listed r.now).standing a listed r.now) name rest) := by
      rw [Lock.judge, hattempt]
      simp only [hstale]
      rfl
    refine .inr (hst.nears hi ⟨rfl, rfl, by rintro ⟨⟩, ?_⟩ hjudge rfl (by omega))
    rintro w' st' (⟨ha', hnil⟩ | _)
    cases hattempt.symm.trans ha'
    rw [hstale] at hnil
    cases hnil

/-- So does the answer to the deletion of a stale name, unless more are stale or the entry is gone. -/
lemma Step.decides_of_deleted {name : String} {rest : List String}
    {answer : (Lock.Phase.reclaiming w st name rest).request.Answer} (hst : Step m t.input t.member)
    (hi : t.input = .answer (.reclaiming w st name rest) answer r) (ha : m.lock.attempt ≠ none)
    (hr : r.cancelled = true) : Decides m t [] ∨ m.Nears t (rest.length + 3) := by
  cases rest with
  | nil =>
    have hk : Concludes m w st t.input := by
      rw [hi]
      exact .deleted
    exact hst.decides_of_concludes hk ha (by rw [hi]; exact hr)
  | cons name' rest =>
    exact .inr (hst.nears hi ⟨rfl, rfl, by rintro ⟨⟩, by rintro w' st' ⟨⟩⟩ rfl rfl (Nat.le_refl _))

/-- An answer decides how a call ends that is to end, or takes it nearer to one that does. -/
theorem Step.decides_or_nears (hst : Step m t.input t.member) (hon : t.input.GoesOn)
    (hp : m.progress = some (.request phase)) (hn : phase.undecided? = some n) (hm : m.Coherent) (htidy : m.Tidy)
    (hr : t.input.reading.cancelled = true) : Decides m t [] ∨ m.Nears t (n + t.input.listedCount) := by
  cases hf : t.input.failure? with
  | some e =>
    refine .inl (.failed hf ?_)
    rw [hst.of_failure hf]
    exact abandon_quits _ _ _
  | none =>
    obtain ⟨answer, r, hi, -⟩ := hst.of_request hon hp
    have hr' : r.cancelled = true := by
      rw [hi] at hr
      exact hr
    have hattempt : m.IsQueuing → m.lock.attempt ≠ none := by
      intro hq
      obtain ⟨a, ha⟩ := hm.attempt hq
      rw [ha]
      exact Option.some_ne_none _
    rw [hi] at hf
    cases phase with
    | clearing limit name =>
      refine .inl (.unstarted (hi ▸ .cleared) (hst.of_checks (hi ▸ .cleared) ?_ htidy hr))
      exact fun hheld => not_isResting hp (hm.resting hheld)
    | seeding w =>
      cases hn
      cases answer with
      | ok listed =>
        exact .inr (hst.nears hi ⟨rfl, rfl, by rintro ⟨⟩, by rintro w' st' ⟨⟩⟩ rfl rfl (Nat.le_add_right 1 _))
      | error e => cases hf
    | creating w entry contents =>
      cases answer with
      | ok u => exact .inl (hst.decides_of_created hi hr')
      | error e => cases hf
    | ranking w =>
      cases hn
      cases answer with
      | ok listed =>
        have hcount : t.input.listedCount = listed.length := by
          rw [hi]
          rfl
        rw [hcount]
        exact hst.decides_of_listed hi (hattempt (IsRanking.isQueuing ⟨w, hp⟩)) hr'
      | error e => cases hf
    | reclaiming w st name rest =>
      cases hn
      have hq : m.IsQueuing := by
        rw [IsQueuing, hp]
        trivial
      exact (hst.decides_of_deleted hi (hattempt hq) hr').imp_right (·.mono (Nat.le_add_right _ _))
    | discarding w name =>
      cases hn
      exact .inr (hst.nears hi ⟨rfl, rfl, by rintro ⟨⟩, by rintro w' st' ⟨⟩⟩ rfl rfl (Nat.le_add_right 2 _))
    | abandoning name o => cases hn
    | releasing name => cases hn

/-! ## Calls that are to end -/

/-- Once it is decided how a call ends, what follows was decided too. -/
lemma Decides.cons {t' : Taken} (h : Decides m t later) (hst : Step (t.member.after later) t'.input t'.member)
    (hon : t'.input.GoesOn) : Decides m t (t' :: later) := by
  cases h with
  | unstarted hk hq => exact .unstarted hk (hq.cons hst hon)
  | created hi hq => exact .created hi (hq.cons hst hon)
  | cancelled hk hover hq => exact .cancelled hk hover (hq.cons hst hon)
  | gaveUp hk hover hq => exact .gaveUp hk hover (hq.cons hst hon)
  | failed hf hq => exact .failed hf (hq.cons hst hon)
  | acquired _ hp _ =>
    refine absurd hon (hst.not_goesOn ?_)
    rw [after_nil, IsResting, hp]
    trivial

/-- A call that gives up waits for its store or has ended. -/
lemma Quits.waits_or_ended {o : Outcome} {own? : Option String} (h : Quits o m own? later) :
    (∃ phase, (m.after later).progress = some (.request phase)) ∨
      ∃ o, (m.after later).progress = some (.done o) := by
  cases h with
  | done hd => exact .inr ⟨o, hd.outcome⟩
  | asked hp _ => exact .inl ⟨_, hp⟩
  | deleted _ _ hd => exact .inr ⟨o, hd.outcome⟩

/-- So does one that winds up. -/
lemma WindsUp.waits_or_ended (h : WindsUp m phase steps) :
    (∃ phase', (m.after steps).progress = some (.request phase')) ∨
      ∃ o, (m.after steps).progress = some (.done o) := by
  cases h with
  | waiting _ hp _ _ _ => exact .inl ⟨_, hp⟩
  | quitting hq => exact hq.waits_or_ended
  | decided _ _ _ hd =>
    rw [after_append, after_cons]
    cases hd with
    | unstarted _ hq => exact hq.waits_or_ended
    | created _ hq => exact hq.waits_or_ended
    | cancelled _ _ hq => exact hq.waits_or_ended
    | gaveUp _ _ hq => exact hq.waits_or_ended
    | failed _ hq => exact hq.waits_or_ended
    | acquired _ hp _ => exact .inr ⟨_, hp⟩

/-- A call that winds up goes on to do so with every step. -/
lemma Step.windsUp (hst : Step (m.after steps) t.input t.member) (h : WindsUp m phase steps)
    (hon : t.input.GoesOn) (hm : (m.after steps).Coherent) (htidy : (m.after steps).Tidy)
    (hr : t.input.reading.cancelled = true) : WindsUp m phase (t :: steps) := by
  cases h with
  | @waiting _ phase' _ n k hn hp hk hpass hle =>
    have hcount : listedCount (t :: steps) = t.input.listedCount + listedCount steps := rfl
    rcases hst.decides_or_nears hon hp hk hm htidy hr with
      hd | ⟨hpasses, phase'', k', hp', hk', hle'⟩
    · show WindsUp m phase ([] ++ t :: steps)
      exact .decided hn hpass (by omega) hd
    · refine .waiting hn hp' hk' (hpass.cons hpasses) ?_
      rw [List.length_cons, hcount]
      omega
  | @decided _ later t' steps _ hn hpass hle hd =>
    rw [after_append, after_cons] at hst
    show WindsUp m phase ((t :: later) ++ t' :: steps)
    exact .decided hn hpass hle (hd.cons hst hon)
  | quitting hq => exact .quitting (hq.cons hst hon)

/-- A call that waits for its store and is to end from then on does not pause any more: all that follows are answers,
and it winds up. -/
theorem History.windsUp (h : History allowed m later) (hon : ∀ t ∈ later, t.input.GoesOn) (hm : m.Coherent)
    (htidy : m.Tidy) (hp : m.progress = some (.request phase))
    (hs : Lock.Settles (m.lock, .request phase)) (hr : ∀ t ∈ later, t.input.reading.cancelled = true) :
    WindsUp m phase later ∧
      ∀ t ∈ later, t.input.IsAnswer ∧ ∀ d rest, t.member.progress ≠ some (.pause d rest) := by
  induction h with
  | nil =>
    refine ⟨?_, by simp⟩
    cases phase with
    | abandoning own o => exact .quitting (.asked hp (htidy.leaving own (by rw [leaving?, hp]; rfl)))
    | releasing own => exact hs.elim
    | _ => exact .waiting rfl hp rfl (by simp [Pass]) (Nat.zero_add _).le
  | @cons later t h _ hst ih =>
    obtain ⟨hont, hon⟩ := List.forall_mem_cons.mp hon
    obtain ⟨hrt, hr⟩ := List.forall_mem_cons.mp hr
    obtain ⟨hwinds, hanswers⟩ := ih hon hr
    have hnext := hst.windsUp hwinds hont (h.coherent hm) (h.tidy htidy) hrt
    refine ⟨hnext, List.forall_mem_cons.mpr ⟨⟨?_, ?_⟩, hanswers⟩⟩
    · rcases hwinds.waits_or_ended with ⟨phase', hp'⟩ | ⟨o, hp'⟩
      · obtain ⟨answer, r, hi, -⟩ := hst.of_request hont hp'
        rw [hi]
        trivial
      · refine absurd hont (hst.not_goesOn ?_)
        rw [IsResting, hp']
        trivial
    · intro d rest hpause
      rcases hnext.waits_or_ended with ⟨phase', hp'⟩ | ⟨o, hp'⟩
      · cases hp'.symm.trans hpause
      · cases hp'.symm.trans hpause

/-- A call that is to end when it looks for the first time has asked the store for nothing but the deletion of the
entry from before, and ends there. -/
lemma IsCall.ends_at_check {newer older : List Taken} (hc : IsCall limit start (newer ++ t :: older))
    (h : History allowed m (newer ++ t :: older)) (hm : m.Coherent) (htidy : m.Tidy) (hs : m.lock.state ≠ .held)
    (hk : Checks (m.after older) t.input) (hr : t.input.reading.cancelled = true) :
    Quits (.failed .cancelled) t.member none newer ∧
      ∀ t' ∈ t :: older, ∀ request, t'.input.request? = some request → ∃ name, request = .delete name := by
  obtain ⟨hcall, hon⟩ := hc.append (List.cons_ne_nil t older)
  have hnewer := h.from_append
  cases h.of_append with
  | cons holder _ hst =>
    have hheld : (m.after older).lock.state ≠ .held ∧
        ∀ t' ∈ t :: older, ∀ request, t'.input.request? = some request → ∃ name, request = .delete name := by
      cases hcall with
      | begins hi _ =>
        refine ⟨hs, ?_⟩
        rintro t' ht' request hrequest
        rw [List.mem_singleton.mp ht', hi] at hrequest
        cases hrequest
      | goesOn hcall hont =>
        generalize hinput : t.input = input at hk hst hont
        cases hk with
        | acquire => exact hont.elim
        | cleared =>
          have hp := hst.progress_of_answer
          obtain ⟨t₀, rfl⟩ := hcall.eq_of_clearing holder hp
          refine ⟨fun hheld => not_isResting hp ((holder.coherent hm).resting hheld), ?_⟩
          intro t' ht' request hrequest
          rcases List.mem_cons.mp ht' with rfl | ht'
          · rw [hinput] at hrequest
            cases hrequest
            exact ⟨_, rfl⟩
          · cases hcall with
            | begins hi _ =>
              rw [List.mem_singleton.mp ht', hi] at hrequest
              cases hrequest
            | goesOn hnil _ => cases hnil
    refine ⟨hnewer.quits hon ?_, hheld.2⟩
    exact hst.of_checks hk hheld.1 (holder.tidy htidy) hr

end Member

end StoreLock
