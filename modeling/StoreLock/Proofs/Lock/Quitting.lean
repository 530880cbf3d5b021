import StoreLock.Proofs.Lock.Alternation

/-!
# Calls that give up

A call gives up in one way only, whatever the reason: it deletes its own entry if there is one, and then it has
ended with the lock idle (`Member.Quits`). It does nothing else, and no answer of the store to the deletion changes
what it tells its caller (`Member.History.quits`). One reason is that the store fails to list or to create
(`Member.Step.of_failure`).
-/

namespace StoreLock

/-- Why a store has failed to list or to create, if that is what it was asked for and it has failed. -/
def Request.failure? : (request : Request) → request.Answer → Option StoreError
  | .list, .error e => some e
  | .create _ _, .error e => some e
  | _, _ => none

/-- Why the store has failed to list or to create, if an input tells so. -/
def Input.failure? : Input → Option StoreError
  | .answer phase a _ => phase.request.failure? a
  | _ => none

namespace Member

/-- Whether a call has ended in this way, with the lock idle and without an entry. -/
structure Ended (o : Outcome) (m : Member) : Prop where
  outcome : m.progress = some (.done o)
  idle : m.lock.state = .idle
  attempt : m.lock.attempt = none

/-- The steps, of which the latest stands first, of a call that is about to end in this way: if it has an entry it
asks for its deletion, and with the answer it has ended. -/
inductive Quits (o : Outcome) (m : Member) : (own? : Option String) → List Taken → Prop where
  /-- There is no entry, and the call has ended at once. -/
  | done :
    m.Ended o →
    Quits o m none []
  /-- The deletion of the entry has not been answered yet. -/
  | asked {own} :
    m.progress = some (.request (.abandoning own o)) →
    m.lock.attempt = none →
    Quits o m (some own) []
  /-- The deletion has been answered, and the call has ended. -/
  | deleted {own t} :
    m.progress = some (.request (.abandoning own o)) →
    t.input.request? = some (.delete own) →
    t.member.Ended o →
    Quits o m (some own) [t]

variable {allowed : Member → Input → Prop} {m m' : Member} {input : Input} {l : Lock} {o : Outcome}
  {own? : Option String} {later steps : List Taken} {limit : WaitLimit} {start : Instant}

lemma Ended.isResting (h : m.Ended o) : m.IsResting := by
  rw [IsResting, h.outcome]
  trivial

lemma Ended.not_goesOn (h : m.Ended o) (st : Step m input m') : ¬ input.GoesOn :=
  st.not_goesOn h.isResting

/-- A call that deletes its entry to give up has ended with the answer, whatever it is. -/
lemma Step.of_abandoning {own : String} (st : Step m input m') (hon : input.GoesOn)
    (hp : m.progress = some (.request (.abandoning own o))) (ha : m.lock.attempt = none) :
    input.request? = some (.delete own) ∧ m'.Ended o := by
  obtain ⟨answer, r, rfl, rfl⟩ := st.of_request hon hp
  exact ⟨rfl, rfl, rfl, ha⟩

/-- A call that is about to end goes on only to hear of the deletion of its entry. -/
lemma Quits.cons {t : Taken} (h : Quits o m own? later) (st : Step (m.after later) t.input t.member)
    (hon : t.input.GoesOn) : Quits o m own? (t :: later) := by
  cases h with
  | done hd => exact absurd hon (hd.not_goesOn st)
  | asked hp ha =>
    obtain ⟨hi, hd⟩ := st.of_abandoning hon hp ha
    exact .deleted hp hi hd
  | deleted _ _ hd => exact absurd hon (hd.not_goesOn st)

/-- A call that abandons its attempt is about to end. -/
lemma abandon_quits (l : Lock) (o : Outcome) (now : Instant) :
    Quits o (ofTurn (l.abandon o) now) l.entryName? [] := by
  rw [Lock.abandon, Lock.entryName?]
  split
  case h_1 ha =>
    rw [ha]
    exact .done ⟨rfl, rfl, rfl⟩
  case h_2 a ha =>
    rw [ha]
    exact .asked rfl (withoutAttempt_attempt l)

/-- What a call that is about to end does next is to delete its entry and to end. -/
lemma History.quits (h : History allowed m later) (hon : ∀ t ∈ later, t.input.GoesOn) (hq : Quits o m own? []) :
    Quits o m own? later := by
  induction h with
  | nil => exact hq
  | @cons later t _ _ st ih =>
    have hbefore := ih fun t' ht' => hon t' (List.mem_cons_of_mem _ ht')
    exact hbefore.cons st (hon t List.mem_cons_self)

/-- A call that the store fails abandons its attempt. -/
lemma Step.of_failure {e : StoreError} (st : Step m input m') (hf : input.failure? = some e) :
    m' = ofTurn (m.lock.abandon (.failed (.store e))) input.reading.now := by
  cases input with
  | answer phase answer r =>
    rw [st.of_answer]
    cases phase with
    | seeding w =>
      cases answer with
      | ok listed => cases hf
      | error e' =>
        cases hf
        rfl
    | creating w entry contents =>
      cases answer with
      | ok u => cases hf
      | error e' =>
        cases hf
        rfl
    | ranking w =>
      cases answer with
      | ok listed => cases hf
      | error e' =>
        cases hf
        rfl
    | _ => cases hf
  | _ => cases hf

/-! ## Calls from a state that a lock can be in -/

lemma IsCall.demand (hc : IsCall limit start steps) : (Demand.acquire limit).IsCall steps := by
  induction hc with
  | begins hi _ => exact .begins ⟨_, hi⟩
  | goesOn _ hon ih => exact .goesOn ih hon

/-- A call begins where none is in progress. -/
lemma IsCall.isResting (hc : IsCall limit start steps) (h : History allowed m steps) : m.IsResting := by
  induction hc with
  | @begins t r hi _ =>
    cases h with
    | cons _ _ st =>
      rw [hi, after_nil] at st
      generalize t.member = m' at st
      cases st with
      | acquire hrest => exact hrest
  | goesOn _ _ ih =>
    cases h with
    | cons h _ _ => exact ih h

/-- What a call has come to is a call too, and what follows goes on with it. -/
lemma IsCall.append {newer older : List Taken} (hc : IsCall limit start (newer ++ older)) (hne : older ≠ []) :
    IsCall limit start older ∧ ∀ t ∈ newer, t.input.GoesOn := by
  induction newer with
  | nil => exact ⟨hc, by simp⟩
  | cons t newer ih =>
    rw [List.cons_append] at hc
    generalize he : newer ++ older = rest at hc
    cases hc with
    | begins => exact absurd (List.append_eq_nil_iff.mp he).2 hne
    | goesOn hc hon =>
      subst he
      obtain ⟨holder, hnewer⟩ := ih hc
      exact ⟨holder, List.forall_mem_cons.mpr ⟨hon, hnewer⟩⟩

/-- A call of a lock that is not held stands as it can wherever it has a request open. -/
lemma IsCall.settles {newer older : List Taken} {phase : Lock.Phase} (hc : IsCall limit start (newer ++ older))
    (h : History allowed m (newer ++ older)) (hm : m.Coherent) (hs : m.lock.state ≠ .held)
    (hp : (m.after older).progress = some (.request phase)) :
    Lock.Settles ((m.after older).lock, .request phase) := by
  have hne : older ≠ [] := by
    rintro rfl
    exact not_isResting hp (hc.isResting h)
  obtain ⟨p, hp', hsettles⟩ := (hc.append hne).1.demand.settles h.of_append hm hs
  cases hp.symm.trans hp'
  exact hsettles

/-- A new lock is tidy, and so is every member that comes of it. -/
lemma History.tidy_of_create {lockPrefix : String} {owner : OwnerId} {timings : Timings} {strategy : Strategy}
    (hl : Lock.create lockPrefix owner timings strategy = .ok l) (h : History allowed { lock := l } steps) :
    (Member.after { lock := l } steps).Tidy := by
  obtain ⟨rfl, -, -⟩ := Lock.eq_of_create hl
  exact h.tidy (tidy_of_attempt rfl nofun)

end Member

end StoreLock
