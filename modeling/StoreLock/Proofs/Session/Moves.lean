import StoreLock.Proofs.Channel
import StoreLock.Session

/-!
# The moves of a call

A call of a lock in a session goes from stop to stop (`Session.Moves`): a pause moves the clock and
takes notice of the channel, a request is carried out, and the lock goes on. A run with fuel is such a course of moves, and it comes
to an end if and only if the course does before the fuel is used up (`Session.run_eq_iff`). So a call
that comes to an end comes to the same end with more fuel, and one that has no end among the states its
moves can reach never ends (`Session.run_eq_none`).
-/

namespace StoreLock

namespace Session

section

variable {σ Client : Type} [ObjectStore σ Client]

/-- The session during a pause, when the clock has moved and what happens then has happened. -/
def paused (s : Session σ Client) (d : Duration) : Session σ Client :=
  (advance { s with channel := s.channel.map CancelChannel.see } d).fire .pausing

/-- A pause takes notice of its channel, and ends early only if true was sent during it. -/
lemma sleep_spec (s : Session σ Client) (d : Duration) :
    ∃ channel, (s.sleep d).2 = { s.paused d with channel, order := (s.paused d).order.tail } ∧
      (channel = (s.paused d).channel ∨ channel = (s.paused d).channel.map CancelChannel.see) ∧
      ((s.sleep d).1 = .cancelled → ∃ c ∈ (s.paused d).channel, c.isUnseen = true ∧ c.value = true) := by
  obtain ⟨n, hbegin, hn⟩ := Nap.look_begin s.channel (s.order.headD false)
  have hsleep : s.sleep d =
      ((n.look (s.paused d).channel true ((s.paused d).order.headD false)).1.ending,
        { s.paused d with
          channel := (n.look (s.paused d).channel true ((s.paused d).order.headD false)).2,
          order := (s.paused d).order.tail }) := by
    simp only [sleep, look, hbegin]
    rfl
  obtain ⟨how, hended, hchannel, hcancelled⟩ :=
    Nap.look_over hn (s.paused d).channel ((s.paused d).order.headD false)
  rw [hsleep, hended]
  exact ⟨_, rfl, hchannel, fun h => (hcancelled h).2⟩

/-- Without hooks nothing happens beside a call. -/
lemma fire_eq {s : Session σ Client} (h : s.hooks = []) (moment : Moment) : s.fire moment = s := by
  obtain ⟨clock, store, main, hooks, channel, calls, order⟩ := s
  cases h
  rfl

/-- A pause beside which nothing happens lasts as long as it was meant to. -/
lemma sleep_eq {s : Session σ Client} (hooks : s.hooks = []) (d : Duration) :
    ∃ channel, s.sleep d = (.elapsed, { s.advance d with channel, order := s.order.tail }) ∧
      channel.map (·.value) = s.channel.map (·.value) := by
  obtain ⟨channel, hs, hchannel, hcancelled⟩ := s.sleep_spec d
  have hpaused : s.paused d = { s.advance d with channel := s.channel.map CancelChannel.see } :=
    fire_eq (s := advance { s with channel := s.channel.map CancelChannel.see } d) hooks .pausing
  rw [hpaused] at hs hchannel hcancelled
  refine ⟨channel, Prod.ext ?_ hs, ?_⟩
  · cases he : (s.sleep d).1 with
    | elapsed => rfl
    | cancelled =>
      -- Whatever was sent before has been noticed.
      obtain ⟨c, hc, hunseen, -⟩ := hcancelled he
      obtain ⟨c', -, rfl⟩ := Option.mem_map.mp hc
      cases hunseen
  · rcases hchannel with rfl | rfl
    · rw [Option.map_map]
      rfl
    · rw [Option.map_map, Option.map_map]
      rfl

/-- What happens in a session between two stops of a call. -/
inductive Moves (client : Client) :
    Lock.Turn → Session σ Client → Lock.Turn → Session σ Client → Prop where
  | pause {l d rest ended s s'} :
    s.sleep d = (ended, s') →
    Moves client (l, .pause d rest) s (l.wake rest ended s'.reading) s'
  | request {l phase answer s s'} :
    s.call client l.listing phase.request = (answer, s') →
    Moves client (l, .request phase) s (l.resume phase answer s'.reading) s'

/-- What a call comes to after some moves. -/
inductive Goes (client : Client) :
    (moves : Nat) → Lock.Turn → Session σ Client → Lock.Turn → Session σ Client → Prop where
  | refl {t s} :
    Goes client 0 t s t s
  | step {n t t' t'' s s' s''} :
    Moves client t s t' s' →
    Goes client n t' s' t'' s'' →
    Goes client (n + 1) t s t'' s''

variable {client : Client} {t t' t'' : Lock.Turn} {s s' s'' : Session σ Client} {n n' fuel : Nat}
  {o : Outcome} {l : Lock}

lemma Goes.trans (h : Goes client n t s t' s') (h' : Goes client n' t' s' t'' s'') :
    Goes client (n + n') t s t'' s'' := by
  induction h with
  | refl =>
    rw [Nat.zero_add]
    exact h'
  | step m _ ih =>
    rw [Nat.add_right_comm]
    exact .step m (ih h')

lemma run_done : Session.run fuel s client (l, .done o) = (some o, l, s) := by
  cases fuel <;> rfl

/-- A run makes the first move and goes on with one unit of fuel less. -/
lemma run_of_moves (h : Moves client t s t' s') :
    Session.run (fuel + 1) s client t = Session.run fuel s' client t' := by
  cases h with
  | pause h => rw [Session.run, h]
  | request h => rw [Session.run, h]

/-- A call has ended or it can move, and without fuel it does not. -/
lemma exists_moves (client : Client) (t : Lock.Turn) (s : Session σ Client) :
    (∃ l o, t = (l, .done o)) ∨
      (Session.run 0 s client t).1 = none ∧ ∃ t' s', Moves client t s t' s' := by
  obtain ⟨l, p⟩ := t
  cases p with
  | done o => exact .inl ⟨l, o, rfl⟩
  | pause d rest => exact .inr ⟨rfl, _, _, .pause rfl⟩
  | request phase => exact .inr ⟨rfl, _, _, .request rfl⟩

/-- A run with fuel ends in this way if and only if the moves of the call do, before the fuel is used
up. -/
theorem run_eq_iff : Session.run fuel s client t = (some o, l, s') ↔
    ∃ n ≤ fuel, Goes client n t s (l, .done o) s' := by
  constructor
  · intro h
    induction fuel generalizing t s with
    | zero =>
      rcases exists_moves client t s with hd | hm
      · obtain ⟨l', o', rfl⟩ := hd
        rw [run_done] at h
        cases h
        exact ⟨0, Nat.le_refl 0, .refl⟩
      · rw [h] at hm
        cases hm.1
    | succ fuel ih =>
      rcases exists_moves client t s with hd | hm
      · obtain ⟨l', o', rfl⟩ := hd
        rw [run_done] at h
        cases h
        exact ⟨0, Nat.zero_le _, .refl⟩
      · obtain ⟨-, t', s₁, hm⟩ := hm
        rw [run_of_moves hm] at h
        obtain ⟨n, hn, hg⟩ := ih h
        exact ⟨n + 1, Nat.succ_le_succ hn, .step hm hg⟩
  · intro h
    obtain ⟨n, hn, hg⟩ := h
    induction n generalizing t s fuel with
    | zero =>
      cases hg
      exact run_done
    | succ n ih =>
      cases hg with
      | step hm hg =>
        obtain ⟨fuel, rfl⟩ := Nat.exists_eq_succ_of_ne_zero (Nat.ne_zero_of_lt hn)
        rw [Nat.succ_eq_add_one, run_of_moves hm]
        exact ih (Nat.le_of_succ_le_succ hn) hg

lemma Goes.run (h : Goes client n t s (l, .done o) s') (more : Nat) (hmore : more ≥ n) :
    Session.run more s client t = (some o, l, s') :=
  run_eq_iff.mpr ⟨n, hmore, h⟩

/-- A call ends in one way, however much fuel it has. -/
lemma outcome_unique {fuel' : Nat} {o' : Outcome} (h : Session.run fuel s client t = (some o, l, s'))
    (h' : (Session.run fuel' s client t).1 = some o') : o = o' := by
  rcases hrun : Session.run fuel' s client t with ⟨_, l', s''⟩
  rw [hrun] at h'
  subst h'
  obtain ⟨n, -, hgoes⟩ := run_eq_iff.mp h
  obtain ⟨n', -, hgoes'⟩ := run_eq_iff.mp hrun
  have hboth := hgoes.run (max n n') (le_max_left n n')
  rw [hgoes'.run (max n n') (le_max_right n n')] at hboth
  cases hboth
  rfl

/-- What every move preserves and no end has keeps a call from ending, however much fuel it has. -/
theorem run_eq_none {Q : Lock.Turn → Session σ Client → Prop}
    (hmoves : ∀ {t t' s s'}, Q t s → Moves client t s t' s' → Q t' s')
    (hdone : ∀ {l o s}, ¬ Q (l, .done o) s) (h : Q t s) (fuel : Nat) :
    (Session.run fuel s client t).1 = none := by
  induction fuel generalizing t s with
  | zero =>
    rcases exists_moves client t s with hd | hm
    · obtain ⟨l, o, rfl⟩ := hd
      exact absurd h hdone
    · exact hm.1
  | succ fuel ih =>
    rcases exists_moves client t s with hd | hm
    · obtain ⟨l, o, rfl⟩ := hd
      exact absurd h hdone
    · obtain ⟨-, t', s', hm⟩ := hm
      rw [run_of_moves hm]
      exact ih (hmoves h hm)

end

end Session

end StoreLock
