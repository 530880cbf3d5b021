import StoreLock.Proofs.Lock.Foreign
import StoreLock.Proofs.Lock.Overdue
import StoreLock.Proofs.Lock.Quitting

/-!
# What store errors do

A call that takes the lock does not look at what the store answers to its deletions, so a run of the call in which
they are answered otherwise is the same run (`Lock.Settles.resume_eq`). It looks at every answer to a listing and to
a creation, and at the first that is an error it gives up: what it tells its caller is that error, and it deletes
the entry that it has (`Member.store_errors`).
-/

namespace StoreLock

/-- What a call that takes the lock heeds of an answer: nothing of the answer to a deletion. -/
def Request.heeded : (request : Request) → request.Answer → Reply
  | .list, answer => .listing answer
  | .create _ _, answer => .done answer
  | .delete _, _ => .done (.ok ())

/-- The same answer, but for a deletion this one. -/
def Request.redone (answer : Except StoreError Unit) : (request : Request) → request.Answer → request.Answer
  | .list, a => a
  | .create _ _, a => a
  | .delete _, _ => answer

/-- The same input, but with this answer if it answers a deletion. -/
def Input.redone (input : Input) (answer : Except StoreError Unit) : Input :=
  match input with
  | .answer phase a r => .answer phase (phase.request.redone answer a) r
  | input => input

/-- The same step, but with this answer if it answers a deletion. -/
def Taken.redone (t : Taken) (answer : Except StoreError Unit) : Taken :=
  ⟨t.input.redone answer, t.member⟩

lemma Request.heeded_redone (answer : Except StoreError Unit) (request : Request) (a : request.Answer) :
    request.heeded (request.redone answer a) = request.heeded a := by
  cases request <;> rfl

/-- In a call that takes the lock, what the store answers to a deletion makes no difference. -/
lemma Lock.Settles.resume_eq {l : Lock} {phase : Phase} {a a' : phase.request.Answer} {r : Reading}
    (h : Settles (l, .request phase)) (he : phase.request.heeded a = phase.request.heeded a') :
    l.resume phase a r = l.resume phase a' r := by
  cases phase with
  | seeding w =>
    cases he
    rfl
  | creating w entry contents =>
    cases he
    rfl
  | ranking w =>
    cases he
    rfl
  | clearing limit name => rfl
  | reclaiming w st name rest => rfl
  | discarding w name => rfl
  | abandoning name o => rfl
  | releasing name => exact h.elim

namespace Member

variable {allowed allowed' : Member → Input → Prop} {m m' : Member} {input : Input} {limit : WaitLimit}
  {start : Instant} {call call' earlier newer older : List Taken} {t : Taken}

/-- A step of a call goes the same way with another answer to a deletion. -/
lemma Step.redone (st : Step m input m')
    (hm : ∀ phase, m.progress = some (.request phase) → Lock.Settles (m.lock, .request phase))
    (answer : Except StoreError Unit) : Step m (input.redone answer) m' := by
  cases st with
  | acquire h => exact .acquire h
  | release h => exact .release h
  | wake h => exact .wake h
  | drop => exact .drop
  | @answer phase a r hp =>
    rw [(hm phase hp).resume_eq (phase.request.heeded_redone answer a).symm]
    exact .answer hp

/-- A call that takes the lock is the same call with other answers to its deletions. -/
lemma History.redone (h : History allowed m call)
    (hm : ∀ newer older phase, call = newer ++ older → (m.after older).progress = some (.request phase) →
      Lock.Settles ((m.after older).lock, .request phase))
    {answers : List (Except StoreError Unit)} (hlen : answers.length = call.length) :
    History (fun _ _ => True) m (call.zipWith Taken.redone answers) ∧
      (call.zipWith Taken.redone answers).map (·.member) = call.map (·.member) ∧
      m.after (call.zipWith Taken.redone answers) = m.after call := by
  induction h generalizing answers with
  | nil => exact ⟨.nil, rfl, rfl⟩
  | @cons call t _ _ st ih =>
    cases answers with
    | nil => cases hlen
    | cons answer answers =>
      obtain ⟨hredone, hmember, hafter⟩ := ih
        (fun newer older phase he => hm (t :: newer) older phase (congrArg (t :: ·) he)) (Nat.succ_inj.mp hlen)
      refine ⟨.cons hredone trivial ?_, congrArg (t.member :: ·) hmember, rfl⟩
      rw [hafter]
      exact st.redone (fun phase => hm [t] call phase rfl) answer

/-- The store fails a call while it makes a new entry or while it ranks its own. -/
lemma Step.of_failure_cases {e : StoreError} (st : Step m input m') (hf : input.failure? = some e) :
    m.IsDrawing ∨ m.IsRanking := by
  cases st with
  | @answer phase a r hp =>
    cases phase with
    | seeding w =>
      rw [IsDrawing, hp]
      exact .inl trivial
    | creating w entry contents =>
      rw [IsDrawing, hp]
      exact .inl trivial
    | ranking w => exact .inr ⟨w, hp⟩
    | _ => cases hf
  | _ => cases hf

section

variable {lockPrefix : String} {owner : OwnerId} {timings : Timings} {strategy : Strategy} {l : Lock}

/-- A call that takes a lock, from any state that the lock can be in without being held. However the store answers
the deletions of the call, it comes to the same member after every step and asks for the same. And when the store
fails to list or to create, the call tells that error: it does nothing else than delete the entry that it has, none
while it makes one and its own while it ranks it, and with the answer it has ended, idle and without an entry. -/
theorem store_errors (hl : Lock.create lockPrefix owner timings strategy = .ok l)
    (h : History allowed { lock := l } (call ++ earlier)) (hc : IsCall limit start call)
    (hs : (Member.after { lock := l } earlier).lock.state ≠ .held) :
    (∀ allowed' call', History allowed' (Member.after { lock := l } earlier) call' →
      call.map (·.input.heard Request.heeded) = call'.map (·.input.heard Request.heeded) →
      call.map (·.member) = call'.map (·.member) ∧
        call.map (·.input.request?) = call'.map (·.input.request?)) ∧
    (∀ answers, answers.length = call.length →
      History (fun _ _ => True) (Member.after { lock := l } earlier) (call.zipWith Taken.redone answers) ∧
        (call.zipWith Taken.redone answers).map (·.member) = call.map (·.member)) ∧
    ∀ newer t older e, call = newer ++ t :: older → t.input.failure? = some e →
      Quits (.failed (.store e)) t.member (Member.after { lock := l } (older ++ earlier)).lock.entryName? newer ∧
        ((Member.after { lock := l } (older ++ earlier)).IsDrawing ∧
            (Member.after { lock := l } (older ++ earlier)).lock.entryName? = none ∨
          (Member.after { lock := l } (older ++ earlier)).IsRanking ∧
            ∃ own, (Member.after { lock := l } (older ++ earlier)).lock.entryName? = some own) := by
  have hm := (h.of_append.run.recorded hl).coherent
  have hcall := h.from_append
  refine ⟨?_, ?_, ?_⟩
  · intro allowed' call' h' hheard
    obtain ⟨hmember, hrequest, -⟩ := hcall.eq_of_heard h' hheard <| by
      rintro newer older rfl phase a a' r hp he
      exact (hc.settles hcall hm hs hp).resume_eq he
    exact ⟨hmember, hrequest⟩
  · intro answers hlen
    obtain ⟨hredone, hmember, -⟩ := hcall.redone (by
      rintro newer older phase rfl hp
      exact hc.settles hcall hm hs hp) hlen
    exact ⟨hredone, hmember⟩
  · rintro newer t older e rfl hf
    rw [List.append_assoc, List.cons_append] at h
    have hnewer := h.from_append
    cases h.of_append with
    | cons hbefore _ st =>
      refine ⟨?_, ?_⟩
      · refine hnewer.quits hc.of_append.1 ?_
        rw [after_cons, st.of_failure hf]
        exact abandon_quits _ _ _
      · rcases st.of_failure_cases hf with hd | hr
        · refine .inl ⟨hd, ?_⟩
          rw [Lock.entryName?, (hbefore.tidy_of_create hl).drawing hd]
          rfl
        · obtain ⟨a, ha⟩ := (hbefore.run.recorded hl).coherent.attempt hr.isQueuing
          refine .inr ⟨hr, a.entry.name, ?_⟩
          rw [Lock.entryName?, ha]
          rfl

end

/-- A call that cannot list the queue to rank its entry fails with that error and deletes the entry. That the store
fails to delete it too changes nothing. -/
theorem store_errors_unlisted : ∃ l e err t t' older call', ∃ r : Reading,
    Lock.create "p" ⟨"a"⟩ .recommended .counter = .ok l ∧
      History Punctual { lock := l } (t' :: t :: older ++ []) ∧ IsCall none 0 (t' :: t :: older) ∧
      (Member.after { lock := l } []).lock.state ≠ .held ∧ t.input.failure? = some err ∧
      Quits (.failed (.store err)) t.member (some (Entry.name e)) [t'] ∧
      t'.input = .answer (.abandoning e.name (.failed (.store err))) (.error err) r ∧
      History (fun _ _ => True) { lock := l } call' ∧
      call'.map (·.member) = (t' :: t :: older).map (·.member) ∧
      call'.head?.map (·.input) = some (.answer (.abandoning e.name (.failed (.store err))) (.ok ()) r) := by
  let late : Instant := 5000000000
  let err : StoreError := .unavailable ""
  obtain ⟨l, e, hl, -, he, -, hpoll, -⟩ := exists_alone none late (by decide)
  have hidle : l.state = .idle := by
    rw [(Lock.eq_of_create hl).1]
  have hc : IsCall none 0 (poll l none [] [e.name] e 0 late) := isCall_poll
  let older := (poll l none [] [e.name] e 0 late).tail
  have hsplit : ∃ t, poll l none [] [e.name] e 0 late = [t] ++ older := ⟨_, rfl⟩
  obtain ⟨t₀, hsplit⟩ := hsplit
  rw [hsplit] at hpoll hc
  let t : Taken := ⟨.answer (.ranking ⟨0, none⟩) (.error err) (.calm late),
    ofTurn ((l.entered [] 0).abandon (.failed (.store err))) late⟩
  have hp : t.member.progress = some (.request (.abandoning e.name (.failed (.store err)))) := by
    show some ((l.entered [] 0).abandon _).2 = _
    rw [Lock.abandon, he]
  let t' : Taken := ⟨.answer (.abandoning e.name (.failed (.store err))) (.error err) (.calm late),
    ofTurn (t.member.lock.resume (.abandoning e.name (.failed (.store err))) (.error err) (.calm late)) late⟩
  have hranking : (Member.after { lock := l } older).progress = some (.request (.ranking ⟨0, none⟩)) := rfl
  have h : History Punctual { lock := l } (t' :: t :: older ++ []) := by
    rw [List.append_nil]
    refine .cons (.cons hpoll.of_append (.of_request hranking le_rfl) (.answered hranking rfl)) ?_ ?_
    · exact .of_request hp le_rfl
    · exact .answered hp rfl
  have hbegun : IsCall none 0 older := (hc.append (by simp [older, poll])).1
  have hcall : IsCall none 0 (t' :: t :: older) := .goesOn (.goesOn hbegun trivial) trivial
  have hs : (Member.after { lock := l } []).lock.state ≠ .held := by
    rw [after_nil, hidle]
    decide
  obtain ⟨-, hredone, hquits⟩ := store_errors hl h hcall hs
  obtain ⟨hhistory, hmember⟩ := hredone (List.replicate 6 (.ok ())) rfl
  obtain ⟨hquits, -⟩ := hquits [t'] t older err rfl rfl
  rw [List.append_nil, Lock.entryName?] at hquits
  have hentry : (Member.after { lock := l } older).lock.attempt = some ⟨e, 0⟩ := he
  rw [hentry] at hquits
  exact ⟨l, e, err, t, t', older, _, .calm late, hl, h, hcall, hs, rfl, hquits, rfl, hhistory, hmember, rfl⟩

end Member

end StoreLock
