import StoreLock.Proofs.Lock.Circling
import StoreLock.Proofs.Lock.Ending
import StoreLock.Proofs.Lock.Tidy
import StoreLock.StaticLock

/-!
# Taking and giving back in turn

What a caller sees who lets every call end before the next one: the lock is idle or held, a call that does not
fit is refused and leaves no trace, and every other call ends with the lock idle or held as its outcome says
(`calls_alternate`). As long as every attempt succeeds and no deletion fails, the caller sees what a lock shows
that nobody contends for.

Each call is told from its beginning on. One that is refused ends where it begins (`Demand.IsCall.eq_singleton`),
one that gives the lock back ends with the answer of the store (`Demand.IsCall.release_cases`), and one that takes it
ends as the machine can (`Demand.IsCall.settles`). A run of calls is then an induction over what holds between them
(`Member.Quiet`).
-/

namespace StoreLock

/-- What a caller wants of a lock. -/
inductive Demand
  /-- To take it. -/
  | acquire (limit : WaitLimit)
  /-- To give it back. -/
  | release

namespace Demand

/-- Whether a call begins with an input on this demand. -/
def Begins : Demand → Input → Prop
  | .acquire limit, input => ∃ r, input = .acquire limit r
  | .release, input => ∃ r, input = .release r

/-- The steps of a call, the latest first. -/
inductive IsCall (demand : Demand) : List Taken → Prop where
  | begins {t} :
    demand.Begins t.input →
    IsCall demand [t]
  | goesOn {t call} :
    IsCall demand call →
    t.input.GoesOn →
    IsCall demand (t :: call)

/-- What a lock that nobody contends for makes of a call. -/
def onStatic : Demand → StaticLock → Except LockError Unit × StaticLock
  | .acquire _, s => s.acquire
  | .release, s => s.release

end Demand

/-- The error of a call that has ended in this way, if it has failed. -/
def Outcome.result : Outcome → Except LockError Unit
  | .failed e => .error e
  | _ => .ok ()

/-- How a call ends that gives the lock back, by the answer to the deletion of its entry. -/
def Outcome.ofDeletion : Except StoreError Unit → Outcome
  | .ok () => .released
  | .error e => .failed (.store e)

/-- A call that has ended, with the member it began at and its steps, the latest first. -/
structure Call where
  demand : Demand
  before : Member
  steps : List Taken
  outcome : Outcome
  history : Member.History (fun _ _ => True) before steps
  isCall : demand.IsCall steps
  ended : (before.after steps).progress = some (.done outcome)

namespace Call

/-- What has become of the member. -/
def after (c : Call) : Member :=
  c.before.after c.steps

/-- The requests to the store that have been answered, the latest first. -/
def requests (c : Call) : List Request :=
  c.steps.filterMap (·.input.request?)

/-- Whether a call has been refused with this error, has asked the store for nothing and has left the lock as
it was. -/
structure Refused (c : Call) (e : LockError) : Prop where
  outcome : c.outcome = .failed e
  requests : c.requests = []
  lock : c.after.lock = c.before.lock

/-- Whether a call succeeds unless it is refused: an attempt takes the lock, and no deletion fails. -/
structure Smooth (c : Call) : Prop where
  taken : ∀ limit, c.demand = .acquire limit → c.before.lock.state ≠ .held → c.outcome = .acquired
  deleted : ∀ t ∈ c.steps, ∀ phase answer r name, t.input = .answer phase answer r →
    phase.request = .delete name → phase.request.IsServed answer

/-- What a caller sees of a call: its error, if it has failed, and whether the lock is held afterwards. -/
def shown (c : Call) : Except LockError Unit × Bool :=
  (c.outcome.result, c.after.lock.isHeld)

end Call

/-- Calls on a member, one after another, the latest first. -/
inductive Calls (start : Member) : List Call → Member → Prop where
  | nil : Calls start [] start
  | cons {calls c} :
    Calls start calls c.before →
    Calls start (c :: calls) c.after

namespace StaticLock

/-- What has become of a lock that nobody contends for after some calls, the latest first. -/
def serve (s : StaticLock) : List Demand → StaticLock
  | [] => s
  | demand :: before => (demand.onStatic (s.serve before)).2

/-- What a caller sees of these calls. -/
def shown (s : StaticLock) : List Demand → List (Except LockError Unit × Bool)
  | [] => []
  | demand :: before =>
    ((demand.onStatic (s.serve before)).1, (s.serve (demand :: before)).isHeld) :: s.shown before

end StaticLock

/-! ## A call from its beginning -/

namespace Member

variable {m m' : Member} {input : Input} {allowed : Member → Input → Prop} {steps : List Taken}

lemma History.lockPrefix (h : History allowed m steps) (hm : m.Coherent) :
    (m.after steps).lock.lockPrefix = m.lock.lockPrefix := by
  induction h with
  | nil => rfl
  | cons h _ st ih => exact (st.advance (h.coherent hm)).lockPrefix.trans ih

lemma History.tidy (h : History allowed m steps) (hm : m.Tidy) : (m.after steps).Tidy :=
  h.preserves hm fun _ _ _ ih _ st => st.tidy ih

end Member

namespace Demand.IsCall

variable {m : Member} {allowed : Member → Input → Prop} {steps : List Taken} {demand : Demand}
  {limit : WaitLimit} {name : String}

/-- A call of a lock that is not held stands as it can, however far it has come. -/
lemma settles (hc : (Demand.acquire limit).IsCall steps) (h : Member.History allowed m steps)
    (hm : m.Coherent) (hs : m.lock.state ≠ .held) : (m.after steps).Settles := by
  induction hc with
  | @begins t hi =>
    cases h with
    | cons _ _ st =>
      obtain ⟨r, hi⟩ := hi
      rw [hi, Member.after_nil] at st
      rw [Member.after_cons, st.of_acquire]
      exact ⟨_, rfl, Lock.acquire_settles hs⟩
  | goesOn _ hon ih =>
    cases h with
    | cons h _ st => exact st.settles hon (h.coherent hm) (ih h)

/-- A call that ends where it begins has no other step. -/
lemma eq_singleton (hc : demand.IsCall steps) (h : Member.History allowed m steps)
    (hends : ∀ t : Taken, demand.Begins t.input → m.Step t.input t.member → t.member.IsResting) :
    ∃ t : Taken, steps = [t] ∧ demand.Begins t.input ∧ m.Step t.input t.member := by
  induction hc with
  | @begins t hi =>
    cases h with
    | cons _ _ st => exact ⟨t, rfl, hi, st⟩
  | goesOn _ hon ih =>
    cases h with
    | cons h _ st =>
      obtain ⟨t, rfl, hi, st'⟩ := ih h
      exact absurd hon (st.not_goesOn (hends t hi st'))

/-- A call that gives a held lock back has asked for the deletion of its entry, or has been answered. -/
lemma release_cases {a : Attempt} (hc : Demand.release.IsCall steps)
    (h : Member.History allowed m steps) (hs : m.lock.state = .held) (ha : m.lock.attempt = some a) :
    (m.after steps).lock.state = .idle ∧
      ((∃ r, steps.map (·.input) = [.release r] ∧
          (m.after steps).progress = some (.request (.releasing a.entry.name))) ∨
        ∃ (answer : Except StoreError Unit) (r r' : Reading),
          steps.map (·.input) = [.answer (.releasing a.entry.name) answer r', .release r] ∧
          (m.after steps).progress = some (.done (.ofDeletion answer))) := by
  induction hc with
  | @begins t hi =>
    cases h with
    | cons _ _ st =>
      obtain ⟨r, hi⟩ := hi
      rw [hi, Member.after_nil] at st
      rw [Member.after_cons, List.map_cons, hi, st.of_release, Lock.release, if_pos hs, ha]
      exact ⟨rfl, .inl ⟨r, rfl, rfl⟩⟩
  | @goesOn t call _ hon ih =>
    cases h with
    | cons h _ st =>
      obtain ⟨hidle, ⟨r, hinputs, hp⟩ | ⟨answer, r, r', -, hp⟩⟩ := ih h
      · obtain ⟨answer, r', hi, hm⟩ := st.of_request hon hp
        rw [Member.after_cons, List.map_cons, hinputs, hi, hm]
        refine ⟨?_, .inr ⟨answer, r, r', rfl, ?_⟩⟩
        · cases answer <;> exact hidle
        · cases answer <;> rfl
      · refine absurd hon (st.not_goesOn ?_)
        rw [Member.IsResting, hp]
        trivial

end Demand.IsCall

/-! ## What a call does -/

/-- What holds of a member between calls that have all ended. -/
structure Member.Quiet (lockPrefix : String) (m : Member) : Prop where
  coherent : m.Coherent
  tidy : m.Tidy
  lockPrefix : m.lock.lockPrefix = lockPrefix
  state : m.lock.state = .idle ∨ m.lock.state = .held
  entry : m.lock.state = .held → m.lock.attempt ≠ none

namespace Call

variable {c : Call} {limit : WaitLimit} {lockPrefix : String}

/-- A call that is refused at its beginning. -/
lemma refused_of_step {e : LockError}
    (hstep : ∀ t : Taken, c.demand.Begins t.input → c.before.Step t.input t.member →
      t.input.request? = none ∧ t.member.lock = c.before.lock ∧
        t.member.progress = some (.done (.failed e))) : c.Refused e := by
  have hends : ∀ t : Taken, c.demand.Begins t.input → c.before.Step t.input t.member →
      t.member.IsResting := by
    intro t hi st
    rw [Member.IsResting, (hstep t hi st).2.2]
    trivial
  obtain ⟨t, hsteps, hi, st⟩ := c.isCall.eq_singleton c.history hends
  obtain ⟨hrequest, hlock, hprogress⟩ := hstep t hi st
  have hended := c.ended
  rw [hsteps, Member.after_cons, hprogress] at hended
  have houtcome := Lock.Progress.done.inj (Option.some.inj hended)
  refine ⟨houtcome.symm, ?_, ?_⟩
  · rw [requests, hsteps, List.filterMap_cons, hrequest]
    rfl
  · rw [after, hsteps, Member.after_cons, hlock]

/-- A held lock is not taken again. -/
lemma refused_of_held (hk : c.demand = .acquire limit) (hs : c.before.lock.state = .held) :
    c.Refused (.alreadyLocked c.before.lock.lockPrefix) := by
  apply refused_of_step
  intro t hi st
  rw [hk] at hi
  obtain ⟨r, hi⟩ := hi
  rw [hi] at st ⊢
  have hturn : c.before.lock.acquire limit r =
      (c.before.lock, .done (.failed (.alreadyLocked c.before.lock.lockPrefix))) := by
    rw [Lock.acquire, hs]
  rw [st.of_acquire, hturn]
  exact ⟨rfl, rfl, rfl⟩

/-- A lock that is not held is not given back. -/
lemma refused_of_not_held (hk : c.demand = .release) (hs : c.before.lock.state ≠ .held) :
    c.Refused (.notLocked c.before.lock.lockPrefix) := by
  apply refused_of_step
  intro t hi st
  rw [hk] at hi
  obtain ⟨r, hi⟩ := hi
  rw [hi] at st ⊢
  rw [st.of_release, Lock.release, if_neg hs]
  exact ⟨rfl, rfl, rfl⟩

/-- An attempt on a lock that is not held ends with the lock held by an entry, or idle. -/
lemma state_of_acquire (hk : c.demand = .acquire limit) (hm : c.before.Coherent)
    (hs : c.before.lock.state ≠ .held) :
    (c.outcome = .acquired → c.after.lock.state = .held ∧ c.after.lock.attempt ≠ none) ∧
      (c.outcome ≠ .acquired → c.after.lock.state = .idle) := by
  have hc := c.isCall
  rw [hk] at hc
  obtain ⟨p, hp, hsettles⟩ := hc.settles c.history hm hs
  cases hp.symm.trans c.ended
  exact hsettles

/-- A held lock that is given back asks for the deletion of its entry and is idle whatever the answer is. -/
lemma exists_deletion {a : Attempt} (hk : c.demand = .release) (hs : c.before.lock.state = .held)
    (ha : c.before.lock.attempt = some a) :
    c.after.lock.state = .idle ∧ ∃ (answer : Except StoreError Unit) (r r' : Reading),
      c.steps.map (·.input) = [.answer (.releasing a.entry.name) answer r', .release r] ∧
      c.outcome = .ofDeletion answer := by
  have hc := c.isCall
  rw [hk] at hc
  obtain ⟨hidle, ⟨r, -, hp⟩ | ⟨answer, r, r', hinputs, hp⟩⟩ := hc.release_cases c.history hs ha
  · cases hp.symm.trans c.ended
  · have houtcome := Lock.Progress.done.inj (Option.some.inj (hp.symm.trans c.ended))
    exact ⟨hidle, answer, r, r', hinputs, houtcome.symm⟩

/-- Calls keep a member quiet. -/
lemma quiet (c : Call) (hm : c.before.Quiet lockPrefix) : c.after.Quiet lockPrefix := by
  have hcoherent := c.history.coherent hm.coherent
  have htidy := c.history.tidy hm.tidy
  have hprefix : c.after.lock.lockPrefix = lockPrefix :=
    (c.history.lockPrefix hm.coherent).trans hm.lockPrefix
  by_cases hs : c.before.lock.state = .held
  case pos =>
    cases hk : c.demand with
    | acquire limit =>
      have hlock := (c.refused_of_held hk hs).lock
      refine ⟨hcoherent, htidy, hprefix, ?_, ?_⟩
      · rw [hlock]
        exact hm.state
      · rw [hlock]
        exact hm.entry
    | release =>
      obtain ⟨a, ha⟩ := Option.ne_none_iff_exists'.mp (hm.entry hs)
      obtain ⟨hidle, -⟩ := c.exists_deletion hk hs ha
      refine ⟨hcoherent, htidy, hprefix, .inl hidle, ?_⟩
      simp [hidle]
  case neg =>
    cases hk : c.demand with
    | acquire limit =>
      obtain ⟨htaken, hfailed⟩ := c.state_of_acquire hk hm.coherent hs
      by_cases ho : c.outcome = .acquired
      · obtain ⟨hheld, hentry⟩ := htaken ho
        exact ⟨hcoherent, htidy, hprefix, .inr hheld, fun _ => hentry⟩
      · refine ⟨hcoherent, htidy, hprefix, .inl (hfailed ho), ?_⟩
        simp [hfailed ho]
    | release =>
      have hlock := (c.refused_of_not_held hk hs).lock
      refine ⟨hcoherent, htidy, hprefix, ?_, ?_⟩
      · rw [hlock]
        exact hm.state
      · rw [hlock]
        exact hm.entry

end Call

/-- A call that succeeds unless it is refused does the same to a lock that nobody contends for, if both were held
before or neither was. -/
lemma Call.onStatic_eq {c : Call} {s : StaticLock} (hm : c.before.Quiet s.lockPrefix)
    (hs : s.isHeld = c.before.lock.isHeld) (hc : c.Smooth) :
    c.demand.onStatic s = (c.outcome.result, { s with isHeld := c.after.lock.isHeld }) := by
  by_cases hheld : c.before.lock.state = .held
  case pos =>
    have hb : c.before.lock.isHeld = true := beq_iff_eq.mpr hheld
    cases hk : c.demand with
    | acquire limit =>
      obtain ⟨houtcome, -, hlock⟩ := c.refused_of_held hk hheld
      rw [Demand.onStatic, StaticLock.acquire, if_pos (hs.trans hb), houtcome, hlock, ← hs, hm.lockPrefix]
      rfl
    | release =>
      obtain ⟨a, ha⟩ := Option.ne_none_iff_exists'.mp (hm.entry hheld)
      obtain ⟨hidle, answer, r, r', hinputs, houtcome⟩ := c.exists_deletion hk hheld ha
      have hserved : answer = .ok () := by
        obtain ⟨t, ht, hi⟩ : ∃ t ∈ c.steps, t.input = .answer (.releasing a.entry.name) answer r' := by
          apply List.mem_map.mp
          rw [hinputs]
          exact List.mem_cons_self
        have hnot := hc.deleted t ht (.releasing a.entry.name) answer r' a.entry.name hi rfl
        cases answer with
        | ok => rfl
        | error e => exact hnot.elim
      have hafter : c.after.lock.isHeld = false := by
        rw [Lock.isHeld, hidle]
        rfl
      rw [Demand.onStatic, StaticLock.release, if_pos (hs.trans hb), houtcome, hserved, hafter]
      rfl
  case neg =>
    have hb : c.before.lock.isHeld = false := beq_eq_false_iff_ne.mpr hheld
    have hnot : ¬ s.isHeld = true := by
      rw [hs, hb]
      exact Bool.false_ne_true
    cases hk : c.demand with
    | acquire limit =>
      have houtcome := hc.taken limit hk hheld
      have hafter : c.after.lock.isHeld = true :=
        beq_iff_eq.mpr ((c.state_of_acquire hk hm.coherent hheld).1 houtcome).1
      rw [Demand.onStatic, StaticLock.acquire, if_neg hnot, houtcome, hafter]
      rfl
    | release =>
      obtain ⟨houtcome, -, hlock⟩ := c.refused_of_not_held hk hheld
      rw [Demand.onStatic, StaticLock.release, if_neg hnot, houtcome, hlock, ← hs, hm.lockPrefix]
      rfl

namespace Calls

variable {l : Lock} {m start : Member} {calls : List Call} {lockPrefix : String} {owner : OwnerId}
  {timings : Timings} {strategy : Strategy}

/-- Between calls, all of which have ended, a member is quiet. -/
lemma quiet (hc : Calls start calls m) (hm : start.Quiet lockPrefix) :
    m.Quiet lockPrefix ∧ ∀ c ∈ calls, c.before.Quiet lockPrefix := by
  induction hc with
  | nil => exact ⟨hm, by simp⟩
  | @cons calls c _ ih => exact ⟨c.quiet ih.1, List.forall_mem_cons.mpr ih⟩

lemma shown_eq {s : StaticLock} (hc : Calls start calls m) (hm : start.Quiet s.lockPrefix)
    (hs : s.isHeld = start.lock.isHeld) (hsmooth : ∀ c ∈ calls, c.Smooth) :
    s.serve (calls.map (·.demand)) = { s with isHeld := m.lock.isHeld } ∧
      calls.map (·.shown) = s.shown (calls.map (·.demand)) := by
  induction hc with
  | nil =>
    refine ⟨?_, rfl⟩
    rw [← hs]
    rfl
  | @cons calls c hbefore ih =>
    obtain ⟨hserve, hshown⟩ := ih fun c' hc' => hsmooth c' (List.mem_cons_of_mem _ hc')
    have hstep : c.demand.onStatic (s.serve (calls.map (·.demand))) =
        (c.outcome.result, { s with isHeld := c.after.lock.isHeld }) := by
      rw [hserve]
      exact c.onStatic_eq (hbefore.quiet hm).1 rfl (hsmooth c List.mem_cons_self)
    have hserve' : s.serve (c.demand :: calls.map (·.demand)) = { s with isHeld := c.after.lock.isHeld } := by
      rw [StaticLock.serve, hstep]
    refine ⟨hserve', ?_⟩
    rw [List.map_cons, List.map_cons, StaticLock.shown, hstep, hserve', hshown]
    rfl

end Calls

lemma Member.quiet_of_create {lockPrefix : String} {owner : OwnerId} {timings : Timings}
    {strategy : Strategy} {l : Lock} (hl : Lock.create lockPrefix owner timings strategy = .ok l) :
    ({ lock := l } : Member).Quiet lockPrefix := by
  obtain ⟨rfl, -, -⟩ := Lock.eq_of_create hl
  exact ⟨⟨nofun, nofun⟩, Member.tidy_of_attempt rfl nofun, rfl, .inl rfl, nofun⟩

/-- Between calls, all of which have ended, a lock is idle or held, and it has an entry exactly when it is held.
To take a held lock, and to give one back that is not, is refused and changes nothing. An attempt ends with the
lock held exactly if it says so, and otherwise idle; a held lock that is given back asks for the deletion of its
entry and for nothing else, and is idle whatever the answer is. If every attempt on a lock that is not held
succeeds and no deletion fails, the caller sees what a lock shows that nobody contends for. -/
theorem calls_alternate {lockPrefix : String} {owner : OwnerId} {timings : Timings}
    {strategy : Strategy} {l : Lock} {calls : List Call} {m : Member}
    (hl : Lock.create lockPrefix owner timings strategy = .ok l) (hc : Calls { lock := l } calls m) :
    (m.lock.state = .idle ∨ m.lock.state = .held) ∧
    (m.lock.entryName?.isSome ↔ m.lock.state = .held) ∧
    (∀ c ∈ calls, ∀ limit, c.demand = .acquire limit →
      (c.before.lock.state = .held → c.Refused (.alreadyLocked lockPrefix)) ∧
      (c.before.lock.state ≠ .held →
        (c.after.lock.state = .held ↔ c.outcome = .acquired) ∧
        (c.outcome ≠ .acquired → c.after.lock.state = .idle))) ∧
    (∀ c ∈ calls, c.demand = .release →
      (c.before.lock.state ≠ .held → c.Refused (.notLocked lockPrefix)) ∧
      (c.before.lock.state = .held → ∃ (name : String) (answer : Except StoreError Unit) (r r' : Reading),
        c.before.lock.entryName? = some name ∧
        c.steps.map (·.input) = [.answer (.releasing name) answer r', .release r] ∧
        c.outcome = .ofDeletion answer ∧ c.after.lock.state = .idle)) ∧
    ((∀ c ∈ calls, c.Smooth) →
      calls.map (·.shown) = StaticLock.shown ⟨lockPrefix, false⟩ (calls.map (·.demand))) := by
  have hstart := Member.quiet_of_create hl
  obtain ⟨hm, hbefore⟩ := hc.quiet hstart
  refine ⟨hm.state, ?_, ?_, ?_, ?_⟩
  · rw [Lock.entryName?, Option.isSome_map, Option.isSome_iff_ne_none]
    constructor
    · intro hentry
      rcases hm.state with hidle | hheld
      · exact absurd (hm.tidy.idle hidle) hentry
      · exact hheld
    · exact hm.entry
  · intro c hmem limit hk
    have hq := hbefore c hmem
    refine ⟨?_, ?_⟩
    · intro hs
      rw [← hq.lockPrefix]
      exact c.refused_of_held hk hs
    · intro hs
      obtain ⟨htaken, hfailed⟩ := c.state_of_acquire hk hq.coherent hs
      refine ⟨⟨?_, fun ho => (htaken ho).1⟩, hfailed⟩
      intro hheld
      by_contra ho
      rw [hfailed ho] at hheld
      cases hheld
  · intro c hmem hk
    have hq := hbefore c hmem
    refine ⟨?_, ?_⟩
    · intro hs
      rw [← hq.lockPrefix]
      exact c.refused_of_not_held hk hs
    · intro hs
      obtain ⟨a, ha⟩ := Option.ne_none_iff_exists'.mp (hq.entry hs)
      obtain ⟨hidle, answer, r, r', hinputs, houtcome⟩ := c.exists_deletion hk hs ha
      refine ⟨a.entry.name, answer, r, r', ?_, hinputs, houtcome, hidle⟩
      rw [Lock.entryName?, ha]
      rfl
  · intro hsmooth
    have hidle : l.isHeld = false := by
      obtain ⟨rfl, -, -⟩ := Lock.eq_of_create hl
      rfl
    exact (hc.shown_eq (s := ⟨lockPrefix, false⟩) hstart hidle.symm hsmooth).2

/-- A held lock can be given back whatever the store answers. -/
lemma Call.exists_release {m : Member} {a : Attempt} (hrest : m.IsResting) (hs : m.lock.state = .held)
    (ha : m.lock.attempt = some a) (answer : Except StoreError Unit) (r r' : Reading) :
    ∃ c : Call, c.demand = .release ∧ c.before = m ∧
      c.steps.map (·.input) = [.answer (.releasing a.entry.name) answer r', .release r] := by
  let free : Member :=
    ⟨{ m.lock.withoutAttempt with state := .idle }, some (.request (.releasing a.entry.name)), r.now⟩
  have hrelease : Member.ofTurn m.lock.release r.now = free := by
    rw [Lock.release, if_pos hs, ha]
    rfl
  have st : m.Step (.release r) free := by
    rw [← hrelease]
    exact .release hrest
  have st' : free.Step (.answer (.releasing a.entry.name) answer r')
      ⟨free.lock, some (.done (.ofDeletion answer)), r'.now⟩ := by
    apply Member.Step.answered rfl
    cases answer <;> rfl
  exact ⟨⟨.release, m, [⟨_, _⟩, ⟨_, _⟩], .ofDeletion answer, .cons (.cons .nil trivial st) trivial st',
    .goesOn (.begins ⟨r, rfl⟩) trivial, rfl⟩, rfl, rfl, rfl⟩

/-- A lock that nobody else wants is taken and given back. -/
theorem calls_alternate_alone : ∃ l calls m,
    Lock.create "p" ⟨"a"⟩ .recommended .counter = .ok l ∧ Calls { lock := l } calls m ∧
      (∀ c ∈ calls, c.Smooth) ∧ m.lock.state = .idle ∧ m.lock.entryName? = none ∧
      calls.map (·.shown) = [(.ok (), false), (.ok (), true)] := by
  obtain ⟨l, e, hl, -, he, -, hist, hafter⟩ :=
    Member.exists_alone none Timings.recommended.settling (Nat.le_of_eq rfl)
  let taken : Call :=
    { demand := .acquire none
      before := { lock := l }
      steps := Member.poll l none [] [e.name] e 0 Timings.recommended.settling
      outcome := .acquired
      history := hist.mono fun _ _ _ => trivial
      isCall := .goesOn (.goesOn (.goesOn (.goesOn (.begins ⟨_, rfl⟩) trivial) trivial) trivial) trivial
      ended := by rw [hafter] }
  have hattempt : taken.after.lock.attempt = some ⟨e, 0⟩ := by
    show (Member.after _ taken.steps).lock.attempt = _
    rw [hafter]
    show ((l.entered [] 0).observe [e.name] Timings.recommended.settling).attempt = _
    rw [Lock.observe_attempt, he]
  have hheld : taken.after.lock.state = .held := by
    show (Member.after _ taken.steps).lock.state = _
    rw [hafter]
    rfl
  have hrest : taken.after.IsResting := by
    have hended : taken.after.progress = some (.done .acquired) := taken.ended
    rw [Member.IsResting, hended]
    trivial
  obtain ⟨given, hk, hbefore, hinputs⟩ :=
    Call.exists_release hrest hheld hattempt (.ok ()) (.calm 0) (.calm 0)
  have hcalls : Calls { lock := l } [given, taken] given.after := by
    apply Calls.cons
    rw [hbefore]
    exact .cons .nil
  have hsmooth : ∀ c ∈ [given, taken], c.Smooth := by
    intro c hc
    rcases List.mem_pair.mp hc with rfl | rfl
    · refine ⟨by simp [hk], ?_⟩
      intro t ht phase answer r name hi hr
      have hmem : t.input ∈ c.steps.map (·.input) := List.mem_map_of_mem ht
      rw [hinputs] at hmem
      rcases List.mem_pair.mp hmem with he | he
      · cases he.symm.trans hi
        trivial
      · cases he.symm.trans hi
    · refine ⟨fun _ _ _ => rfl, ?_⟩
      intro t ht phase answer r name hi hr
      simp only [taken, Member.poll, List.mem_cons, List.not_mem_nil, or_false] at ht
      rcases ht with rfl | rfl | rfl | rfl | rfl <;> cases hi <;> cases hr
  obtain ⟨hstate, hentry, -, hreleases, hshown⟩ := calls_alternate hl hcalls
  obtain ⟨-, -, -, -, -, -, -, hidle⟩ := (hreleases given List.mem_cons_self hk).2 (by rwa [hbefore])
  refine ⟨l, _, _, hl, hcalls, hsmooth, hidle, ?_, ?_⟩
  · simp [← Option.not_isSome_iff_eq_none, hentry, hidle]
  · rw [hshown hsmooth, List.map_cons, hk]
    rfl

end StoreLock
