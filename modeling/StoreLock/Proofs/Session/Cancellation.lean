import StoreLock.Proofs.Lock.Cancellation
import StoreLock.Proofs.Lock.Overdue
import StoreLock.Proofs.Session.Moves
import StoreLock.Store.MemoryStore

/-!
# Channels that nobody sends to

A call looks at its channel only to see whether it is to end. So as long as it has not been ended, it has come as
far as it would have without a channel (`Session.Goes.muted`); and a channel that tells nothing and has nobody to
send to it makes no difference to what follows (`Session.Silent.run_muted`). A pause that learns that nobody is left
to send goes on with its clock alone and ends when it would have (`Session.sleep_of_silent`). So a call whose sender
is dropped comes to the same as one without a channel, whatever has been sent before, as long as it goes on. With
what calls do whose caller wants them to end (`Member.History.windsUp`) this tells all that comes of cancellation
(`cancelled_calls_end`).
-/

namespace StoreLock

/-- The same reading for a caller that does not want the call to end. -/
def Reading.uncancelled (r : Reading) : Reading :=
  { r with cancelled := false }

namespace Lock

/-- Whether a call that has come this far tells that its caller has ended it, or will tell so. -/
def Progress.IsCancelled : Progress → Prop
  | .done o => o = .failed .cancelled
  | .request (.abandoning _ o) => o = .failed .cancelled
  | _ => False

variable {l : Lock} {w : Window} {d : Duration} {r : Reading} {limit : WaitLimit} {st : Standing}
  {names listed : List String}

lemma abandon_isCancelled (l : Lock) : (l.abandon (.failed .cancelled)).2.IsCancelled := by
  rw [abandon]
  split
  case h_1 => rfl
  case h_2 => rfl

/-! ## Calls that have not been ended -/

lemma pause_uncancelled (h : ¬ (l.pause w d r).2.IsCancelled) : l.pause w d r.uncancelled = l.pause w d r := by
  rw [pause] at h
  split at h
  case isTrue => exact absurd l.abandon_isCancelled h
  case isFalse hr =>
    rw [pause, pause, if_neg hr]
    rfl

lemma start_uncancelled (h : ¬ (l.start limit r).2.IsCancelled) :
    l.start limit r.uncancelled = l.start limit r := by
  rw [start] at h
  split at h
  case isTrue => exact absurd (abandon_isCancelled _) h
  case isFalse hr =>
    rw [start, start, if_neg hr]
    rfl

lemma acquire_uncancelled (h : ¬ (l.acquire limit r).2.IsCancelled) :
    l.acquire limit r.uncancelled = l.acquire limit r := by
  rw [acquire] at h ⊢
  rw [acquire]
  split at h
  case h_1 => rfl
  case h_2 => exact start_uncancelled h
  case h_3 =>
    split at h
    case h_1 => exact start_uncancelled h
    case h_2 => rfl
  case h_4 =>
    split at h
    case h_1 => exact start_uncancelled h
    case h_2 => rfl

lemma conclude_uncancelled (h : ¬ (l.conclude w st r).2.IsCancelled) :
    l.conclude w st r.uncancelled = l.conclude w st r := by
  cases st with
  | first => rfl
  | waiting =>
    rw [conclude] at h
    split at h
    case isTrue hover =>
      rw [conclude, conclude, if_pos hover]
      exact if_pos hover
    case isFalse hover =>
      rw [conclude, conclude, if_neg hover]
      exact (if_neg hover).trans (pause_uncancelled h)
  | reclaimed => rfl

lemma reclaim_uncancelled (h : ¬ (l.reclaim w st names r).2.IsCancelled) :
    l.reclaim w st names r.uncancelled = l.reclaim w st names r := by
  cases names with
  | nil => exact conclude_uncancelled h
  | cons name rest => rfl

lemma judge_uncancelled (h : ¬ (l.judge w listed r).2.IsCancelled) :
    l.judge w listed r.uncancelled = l.judge w listed r := by
  rw [judge] at h ⊢
  rw [judge]
  cases ha : l.attempt with
  | none =>
    rw [ha] at h
    exact conclude_uncancelled h
  | some a =>
    rw [ha] at h
    exact reclaim_uncancelled h

lemma wake_uncancelled {rest : Rest} (h : ¬ (l.wake rest .elapsed r).2.IsCancelled) :
    l.wake rest .elapsed r.uncancelled = l.wake rest .elapsed r := by
  rw [wake] at h ⊢
  rw [wake]
  cases ha : l.attempt with
  | none =>
    rw [ha] at h
    exact conclude_uncancelled h
  | some a => rfl

/-- A call that has not been ended goes on as one does whose caller does not want it to end. -/
lemma resume_uncancelled {phase : Phase} {answer : phase.request.Answer}
    (h : ¬ (l.resume phase answer r).2.IsCancelled) :
    l.resume phase answer r.uncancelled = l.resume phase answer r := by
  cases phase with
  | clearing limit name => exact start_uncancelled h
  | seeding w => cases answer <;> rfl
  | creating w entry contents =>
    cases answer with
    | ok u => exact pause_uncancelled h
    | error e => rfl
  | ranking w =>
    cases answer with
    | ok listed => exact judge_uncancelled h
    | error e => rfl
  | reclaiming w st name rest => exact reclaim_uncancelled h
  | discarding w name => rfl
  | abandoning name o => rfl
  | releasing name => cases answer <;> rfl

end Lock

namespace Session

variable {σ Client : Type} {s s' : Session σ Client} {client : Client} {t t' : Lock.Turn} {n fuel : Nat}

/-- The session without its channel. -/
def muted (s : Session σ Client) : Session σ Client :=
  { s with channel := none }

/-- Whether the channel of a session tells nothing, and nobody is left to send to it. -/
def Silent (s : Session σ Client) : Prop :=
  ∀ c ∈ s.channel, c.value = false ∧ c.hasSender = false

lemma Silent.uncancelled (h : s.Silent) : s.reading.uncancelled = s.reading := by
  have hr : s.reading.cancelled = false := by
    rw [reading]
    cases hc : s.channel with
    | none => rfl
    | some c => exact (h c hc).1
  rw [Reading.uncancelled, ← hr]

variable [ObjectStore σ Client]

lemma act_muted (a : HookAction σ) : s.muted.act a = (s.act a).muted := by
  cases a <;> rfl

lemma foldl_act_muted (actions : List (HookAction σ)) :
    actions.foldl act s.muted = (actions.foldl act s).muted := by
  induction actions generalizing s with
  | nil => rfl
  | cons a actions ih => rw [List.foldl_cons, List.foldl_cons, act_muted, ih]

lemma fire_muted (moment : Moment) : s.muted.fire moment = (s.fire moment).muted := by
  rw [fire, fire]
  exact foldl_act_muted (s := { s with hooks := _ }) _

/-- The channel makes no difference to what a store call comes to. -/
lemma call_muted (client : Client) (listing : String) (request : Request) :
    s.muted.call client listing request =
      ((s.call client listing request).1, (s.call client listing request).2.muted) := by
  rw [call, call, fire_muted]
  generalize s.fire (.before request.kind) = s₁
  let answered := ObjectStore.perform s₁.store client s₁.clock.now listing request
  have hafter := fire_muted (s := { s₁ with store := answered.2 }) (.after request.kind)
  exact congrArg (fun s' : Session σ Client =>
    (answered.1, { s' with calls := s'.calls ++ [(⟨listing, request, answered.1⟩ : CallRecord)] })) hafter

lemma paused_muted (s : Session σ Client) (d : Duration) : s.muted.paused d = (s.paused d).muted := by
  rw [paused, paused, ← fire_muted]
  rfl

/-- Without a channel a pause lasts as long as it was meant to, and nothing else is different. -/
lemma sleep_muted (s : Session σ Client) (d : Duration) :
    s.muted.sleep d = (.elapsed, (s.sleep d).2.muted) := by
  obtain ⟨channel, hs, -, -⟩ := s.sleep_spec d
  obtain ⟨channel', hs', hchannel', hcancelled'⟩ := s.muted.sleep_spec d
  rw [paused_muted] at hs' hchannel' hcancelled'
  refine Prod.ext ?_ ?_
  · cases he : (s.muted.sleep d).1 with
    | elapsed => rfl
    | cancelled =>
      obtain ⟨c, hc, -⟩ := hcancelled' he
      cases hc
  · rw [hs', hs, or_self_iff.mp hchannel']
    rfl

/-! ## Channels without a sender -/

/-- A channel whose sender is dropped while it tells nothing is silent. -/
lemma silent_dropSender (h : s.reading.cancelled = false) : (s.act .dropSender).Silent := by
  intro c hc
  obtain ⟨c', hc', rfl⟩ := Option.mem_map.mp hc
  rw [reading, hc'] at h
  exact ⟨h, rfl⟩

lemma Silent.act (h : s.Silent) (a : HookAction σ) : (s.act a).Silent := by
  cases a with
  | cancel value =>
    intro c hc
    obtain ⟨c', hc', rfl⟩ := Option.mem_map.mp hc
    have hsend : c'.send value = c' := by
      rw [CancelChannel.send, (h c' hc').2]
      rfl
    rw [hsend]
    exact h c' hc'
  | dropSender =>
    intro c hc
    obtain ⟨c', hc', rfl⟩ := Option.mem_map.mp hc
    exact ⟨(h c' hc').1, rfl⟩
  | _ => exact h

lemma Silent.fire (h : s.Silent) (moment : Moment) : (s.fire moment).Silent := by
  rw [Session.fire]
  exact List.foldlRecOn _ Session.act (motive := Silent) h fun s h a _ => h.act a

lemma Silent.call (h : s.Silent) (client : Client) (listing : String) (request : Request) :
    (s.call client listing request).2.Silent := by
  have hbefore := h.fire (.before request.kind)
  let answered := ObjectStore.perform (s.fire (.before request.kind)).store client
    (s.fire (.before request.kind)).clock.now listing request
  have hanswered : Silent { s.fire (.before request.kind) with store := answered.2 } := hbefore
  exact hanswered.fire (.after request.kind)

omit [ObjectStore σ Client] in
lemma silent_see {channel : Option CancelChannel} (h : s.Silent)
    (hc : channel = s.channel ∨ channel = s.channel.map CancelChannel.see) :
    Silent { s with channel } := by
  rcases hc with rfl | rfl
  · exact h
  · intro c hc
    obtain ⟨c', hc', rfl⟩ := Option.mem_map.mp hc
    exact h c' hc'

lemma Silent.paused (h : s.Silent) (d : Duration) : (s.paused d).Silent := by
  have hnoticed : (advance { s with channel := s.channel.map CancelChannel.see } d).Silent :=
    silent_see h (.inr rfl)
  exact hnoticed.fire .pausing

/-- A pause during which the channel falls silent lasts as long as it was meant to. -/
lemma sleep_of_silent {d : Duration} (h : (s.paused d).Silent) :
    (s.sleep d).1 = .elapsed ∧ (s.sleep d).2.Silent := by
  obtain ⟨channel, hs, hchannel, hcancelled⟩ := s.sleep_spec d
  constructor
  · cases he : (s.sleep d).1 with
    | elapsed => rfl
    | cancelled =>
      obtain ⟨c, hc, -, hvalue⟩ := hcancelled he
      rw [(h c hc).1] at hvalue
      cases hvalue
  · rw [hs]
    exact silent_see h hchannel

/-- A channel that tells nothing, and that nobody is left to send to, makes no difference to what a call comes
to. -/
theorem Silent.run_muted (h : s.Silent) : Session.run fuel s.muted client t =
    ((Session.run fuel s client t).1, (Session.run fuel s client t).2.1,
      (Session.run fuel s client t).2.2.muted) := by
  induction fuel generalizing s t with
  | zero =>
    obtain ⟨l, p⟩ := t
    cases p <;> rfl
  | succ fuel ih =>
    obtain ⟨l, p⟩ := t
    cases p with
    | done o => rfl
    | pause d rest =>
      obtain ⟨hended, h'⟩ := sleep_of_silent (h.paused d)
      rw [Session.run, Session.run, sleep_muted]
      show Session.run fuel _ client (l.wake rest _ (s.sleep d).2.reading.uncancelled) = _
      rw [h'.uncancelled, ← hended]
      exact ih h'
    | request phase =>
      have h' := h.call client l.listing phase.request
      rw [Session.run, Session.run, call_muted]
      show Session.run fuel _ client
        (l.resume phase _ (s.call client l.listing phase.request).2.reading.uncancelled) = _
      rw [h'.uncancelled]
      exact ih h'

/-! ## Calls up to a time -/

/-- A call that has been ended stays so. -/
lemma Moves.isCancelled (h : Moves client t s t' s') (hc : t.2.IsCancelled) : t'.2.IsCancelled := by
  cases h with
  | pause => exact hc.elim
  | @request l phase answer s s' _ =>
    cases phase with
    | abandoning name o => exact hc
    | _ => exact hc.elim

lemma Moves.muted (h : Moves client t s t' s') (hc : ¬ t'.2.IsCancelled) :
    Moves client t s.muted t' s'.muted := by
  cases h with
  | @pause l d rest ended s s' hsleep =>
    cases ended with
    | cancelled => exact absurd l.abandon_isCancelled hc
    | elapsed =>
      have hmuted : s.muted.sleep d = (.elapsed, s'.muted) := by
        rw [sleep_muted, hsleep]
      rw [← Lock.wake_uncancelled hc]
      exact .pause hmuted
  | @request l phase answer s s' hcall =>
    have hmuted : s.muted.call client l.listing phase.request = (answer, s'.muted) := by
      rw [call_muted, hcall]
    rw [← Lock.resume_uncancelled hc]
    exact .request hmuted

/-- A call that has not been ended has come as far as it would have without a channel. -/
theorem Goes.muted (h : Goes client n t s t' s') (hc : ¬ t'.2.IsCancelled) :
    Goes client n t s.muted t' s'.muted ∧ ¬ t.2.IsCancelled := by
  induction h with
  | refl => exact ⟨.refl, hc⟩
  | step hm _ ih =>
    obtain ⟨hgoes, hc'⟩ := ih hc
    exact ⟨.step (hm.muted hc') hgoes, fun ht => hc' (hm.isCancelled ht)⟩

/-- A call that has not been ended by the time from which on its channel is silent comes to the same as one without a
channel. -/
theorem Goes.run_muted (h : Goes client n t s t' s') (hc : ¬ t'.2.IsCancelled) (hs : s'.Silent) :
    Session.run fuel s.muted client t = ((Session.run fuel s client t).1, (Session.run fuel s client t).2.1,
      (Session.run fuel s client t).2.2.muted) := by
  induction h generalizing fuel with
  | refl => exact hs.run_muted
  | @step n t t₁ t' s s₁ s' hm hgoes ih =>
    cases fuel with
    | zero =>
      obtain ⟨l, p⟩ := t
      cases p <;> rfl
    | succ fuel =>
      rw [run_of_moves hm, run_of_moves (hm.muted (hgoes.muted hc).2)]
      exact ih hc hs

/-- A call that has not been ended by the time from which on its channel is silent comes to the same as one that is
given no channel. -/
theorem acquire_eq_of_silent {l : Lock} {limit : WaitLimit} {c : CancelChannel}
    (h : Goes client n (l.acquire limit (reading { s with channel := some c, calls := [] }))
      { s with channel := some c, calls := [] } t' s')
    (hc : ¬ t'.2.IsCancelled) (hs : s'.Silent) (fuel : Nat) :
    s.acquire fuel client l limit (some c) = s.acquire fuel client l limit none := by
  have hbegin : l.acquire limit (reading { s with channel := none, calls := [] }) =
      l.acquire limit (reading { s with channel := some c, calls := [] }) :=
    Lock.acquire_uncancelled (h.muted hc).2
  have hrun : Session.run fuel { s with channel := none, calls := [] } client
      (l.acquire limit (reading { s with channel := some c, calls := [] })) = _ := h.run_muted hc hs
  rw [acquire, acquire]
  simp only [hbegin, hrun]
  rfl

end Session

section

variable {allowed : Member → Input → Prop} {lockPrefix : String} {owner : OwnerId} {timings : Timings}
  {strategy : Strategy} {l : Lock} {limit : WaitLimit} {start : Instant} {call earlier : List Taken}

/-- What comes of cancellation in a call that takes a lock, from any state that the lock can be in without being held.

If the caller wants the call to end when it looks for the first time, it has asked the store for nothing but the
deletion of an entry from before, and it ends there. If the caller wants that from some time on at which the call waits
for its store, the call does not pause any more: it goes on from one answer to the next, ends where it would pause if
nothing else has decided how it ends, and deletes its entry last unless it has taken the lock.

In a session, a call that has not been ended by the time from which on its channel tells nothing and nobody is left to
send to it, dropped beside a store call, during a pause or before the call, comes to the same as one without a channel:
it ends in the same way at the same time, or not at all, after the same store calls. -/
theorem cancelled_calls_end (hl : Lock.create lockPrefix owner timings strategy = .ok l)
    (h : Member.History allowed { lock := l } (call ++ earlier)) (hc : Member.IsCall limit start call)
    (hs : (Member.after { lock := l } earlier).lock.state ≠ .held) :
    (∀ newer t older, call = newer ++ t :: older →
      Member.Checks (Member.after { lock := l } (older ++ earlier)) t.input → t.input.reading.cancelled = true →
      Member.Quits (.failed .cancelled) t.member none newer ∧
        ∀ t' ∈ t :: older, ∀ request, t'.input.request? = some request → ∃ name, request = .delete name) ∧
    (∀ newer older phase, call = newer ++ older →
      (Member.after { lock := l } (older ++ earlier)).progress = some (.request phase) →
      (∀ t ∈ newer, t.input.reading.cancelled = true) →
      Member.WindsUp (Member.after { lock := l } (older ++ earlier)) phase newer ∧
        ∀ t ∈ newer, t.input.IsAnswer ∧ ∀ d rest, t.member.progress ≠ some (.pause d rest)) ∧
    ∀ (σ Client : Type) [ObjectStore σ Client] (s s' : Session σ Client) (client : Client) (l' : Lock)
      (limit' : WaitLimit) (c : CancelChannel) (t' : Lock.Turn) (n : Nat),
      Session.Goes client n (l'.acquire limit' (Session.reading { s with channel := some c, calls := [] }))
        { s with channel := some c, calls := [] } t' s' →
      ¬ t'.2.IsCancelled → s'.Silent →
      ∀ fuel, s.acquire fuel client l' limit' (some c) = s.acquire fuel client l' limit' none := by
  have hm := (h.of_append.run.recorded hl).coherent
  have htidy := h.of_append.tidy_of_create hl
  have hcall := h.from_append
  refine ⟨?_, ?_, ?_⟩
  · rintro newer t older rfl hk hr
    rw [Member.after_append] at hk
    exact hc.ends_at_check hcall hm htidy hs hk hr
  · rintro newer older phase rfl hp hr
    rw [Member.after_append] at hp ⊢
    have hne : older ≠ [] := by
      rintro rfl
      exact Member.not_isResting hp (hc.isResting hcall)
    have hsettles := hc.settles hcall hm hs hp
    exact hcall.from_append.windsUp (hc.append hne).2 (hcall.of_append.coherent hm) (hcall.of_append.tidy htidy) hp
      hsettles hr
  · intro σ Client _ s s' client l' limit' c t' n hgoes hend hsilent fuel
    exact Session.acquire_eq_of_silent hgoes hend hsilent fuel

end

/-- A call in a session whose only hook drops the sender in the first pause goes on after that pause as if nothing had
happened. -/
lemma Session.exists_dropped_in_pause : ∃ (l : Lock) (s : Session MemoryStore Nat) (t' : Lock.Turn)
    (s' : Session MemoryStore Nat), Lock.create "p" ⟨"a"⟩ .recommended .counter = .ok l ∧
      s.hooks = [⟨.pausing, 1, [.dropSender]⟩] ∧
      Session.Goes 0 3 (l.acquire none (Session.reading { s with channel := some { value := false }, calls := [] }))
        { s with channel := some { value := false }, calls := [] } t' s' ∧
      ¬ t'.2.IsCancelled ∧ s'.Silent := by
  obtain ⟨l, s, l₂, d, w, s₂, hl, hs, hgoes, ⟨a, ha⟩, hhooks, hchannel⟩ :
      ∃ (l : Lock) (s : Session MemoryStore Nat) (l₂ : Lock) (d : Duration) (w : Window) (s₂ : Session MemoryStore Nat),
        Lock.create "p" ⟨"a"⟩ .recommended .counter = .ok l ∧ s.hooks = [⟨.pausing, 1, [.dropSender]⟩] ∧
        Session.Goes 0 2 (l.acquire none (Session.reading { s with channel := some { value := false }, calls := [] }))
          { s with channel := some { value := false }, calls := [] } (l₂, .pause d ⟨w⟩) s₂ ∧
        (∃ a, l₂.attempt = some a) ∧ s₂.hooks = [⟨.pausing, 1, [.dropSender]⟩] ∧
        s₂.channel = some { value := false } := by
    refine ⟨⟨"p", ⟨"a"⟩, .recommended, { strategy := .counter }, {}, .idle, none⟩,
      { clock := ⟨0, 0⟩, store := {}, main := 0, hooks := [⟨.pausing, 1, [.dropSender]⟩] }, _, _, _, _, ?_, rfl,
      .step (.request rfl) (.step (.request rfl) .refl), ⟨_, rfl⟩, rfl, rfl⟩
    decide +kernel
  have hpaused : (s₂.paused d).Silent := by
    rw [Session.paused, Session.fire]
    simp only [Session.advance, hhooks, hchannel]
    exact Session.silent_dropSender rfl
  obtain ⟨hended, hsilent⟩ := Session.sleep_of_silent hpaused
  have hsleep : s₂.sleep d = (.elapsed, (s₂.sleep d).2) := Prod.ext hended rfl
  refine ⟨l, s, _, _, hl, hs, hgoes.trans (.step (.pause hsleep) .refl), ?_, hsilent⟩
  rw [Lock.wake, ha]
  exact id

/-- A call whose caller wants it to end while its entry is being created does not pause: it deletes the entry and tells
that it was ended. The sender of another is dropped in its first pause, and it comes to the same as one without a
channel. -/
theorem cancelled_while_creating : ∃ l e contents t t' older, ∃ s : Session MemoryStore Nat,
    Lock.create "p" ⟨"a"⟩ .recommended .counter = .ok l ∧
      Member.History Member.Punctual { lock := l } ([t', t] ++ older ++ []) ∧
      Member.IsCall none 0 ([t', t] ++ older) ∧ (Member.after { lock := l } []).lock.state ≠ .held ∧
      (Member.after { lock := l } (older ++ [])).progress = some (.request (.creating ⟨0, none⟩ e contents)) ∧
      (∀ t'' ∈ [t', t], t''.input.reading.cancelled = true) ∧
      Member.WindsUp (Member.after { lock := l } (older ++ [])) (.creating ⟨0, none⟩ e contents) [t', t] ∧
      t'.input.request? = some (.delete e.name) ∧ t'.member.Ended (.failed .cancelled) ∧
      s.hooks = [⟨.pausing, 1, [.dropSender]⟩] ∧
      ∀ fuel, s.acquire fuel 0 l none (some { value := false }) = s.acquire fuel 0 l none none := by
  let r : Reading := ⟨0, 0, true⟩
  obtain ⟨l, e, hl, -, -, -, hpoll, -⟩ := Member.exists_alone none 5000000000 (by decide)
  have hidle : l.state = .idle := by
    rw [(Lock.eq_of_create hl).1]
  have hcall : Member.IsCall none 0 (Member.poll l none [] [e.name] e 0 5000000000) := Member.isCall_poll
  obtain ⟨newer, older, contents, hsplit, hne, hp, hsince⟩ : ∃ newer older contents,
      Member.poll l none [] [e.name] e 0 5000000000 = newer ++ older ∧ older ≠ [] ∧
        (Member.after { lock := l } older).progress = some (.request (.creating ⟨0, none⟩ e contents)) ∧
        (Member.after { lock := l } older).since = 0 :=
    ⟨[_, _, _], [_, _], _, rfl, List.cons_ne_nil _ _, rfl, rfl⟩
  rw [hsplit] at hpoll hcall
  generalize hm₀ : Member.after { lock := l } older = m₀ at hp hsince
  let t : Taken := ⟨.answer (.creating ⟨0, none⟩ e contents) (.ok ()) r,
    Member.ofTurn (m₀.lock.resume (.creating ⟨0, none⟩ e contents) (.ok ()) r) r.now⟩
  have ht : t.member.progress = some (.request (.abandoning e.name (.failed .cancelled))) := by
    show some (Lock.pause _ _ _ r).2 = _
    rw [Lock.pause, if_pos rfl, Lock.abandon]
  let t' : Taken := ⟨.answer (.abandoning e.name (.failed .cancelled)) (.ok ()) r,
    Member.ofTurn (t.member.lock.resume (.abandoning e.name (.failed .cancelled)) (.ok ()) r) r.now⟩
  have h : Member.History Member.Punctual { lock := l } (t' :: t :: older) := by
    refine .cons (.cons hpoll.of_append ?_ ?_) (.of_request ht le_rfl) (.answered ht rfl)
    · rw [hm₀]
      exact .of_request hp hsince.le
    · rw [hm₀]
      exact .answered hp rfl
  rw [← List.append_nil (t' :: t :: older)] at h
  have hc : Member.IsCall none 0 ([t', t] ++ older) := .goesOn (.goesOn (hcall.append hne).1 trivial) trivial
  have hs : (Member.after { lock := l } []).lock.state ≠ .held := by
    rw [Member.after_nil, hidle]
    decide
  have hcancelled : ∀ t'' ∈ [t', t], t''.input.reading.cancelled = true := by
    simp [t', t, r, Input.reading]
  obtain ⟨l', s, t'', s', hl', hhooks, hgoes, hgoesOn, hsilent⟩ := Session.exists_dropped_in_pause
  cases hl.symm.trans hl'
  obtain ⟨-, hwinds, hsessions⟩ := cancelled_calls_end hl h hc hs
  have hp' : (Member.after { lock := l } (older ++ [])).progress =
      some (.request (.creating ⟨0, none⟩ e contents)) := by
    rw [List.append_nil, hm₀, hp]
  have hended : t'.member.Ended (.failed .cancelled) :=
    ⟨rfl, rfl, Member.withoutAttempt_attempt { m₀.lock with attempt := some ⟨e, r.now⟩ }⟩
  refine ⟨l, e, contents, t, t', older, s, hl, h, hc, hs, hp', hcancelled,
    (hwinds [t', t] older _ rfl hp' hcancelled).1, rfl, hended, hhooks,
    hsessions MemoryStore Nat s s' 0 _ none _ t'' 3 hgoes hgoesOn hsilent⟩

end StoreLock
