import StoreLock.Proofs.Channel
import StoreLock.Proofs.Lock.History
import StoreLock.Simulation.Run

/-!
# Simulated locks as members

A contender is a lock that waits for a timer, and what it waits for is what its call has come to
(`Simulation.Follows`). So all that happens to its lock is a history in which the clock does not go back and a
pause lasts as long as it was meant to, whatever the others do, what the store answers and how long that takes
(`Simulation.run_history`). What holds after every such history holds of it.

That time does not go back is an invariant of the loop: no timer lies in the past (`Simulation.Sound`), for the
event that comes next is never later than a timer (`Simulation.due_spec`).

Here a pause can be asked to end while it lasts: true ends it at once (`Simulation.signal_true`), and if nobody is
left to send, it ends when it would have (`Simulation.signal_dropSender`, `Simulation.wake_alone`).
-/

namespace StoreLock

namespace Simulation

/-- What a contender waits for is what the call of a member has come to, and the time at which it goes on is that at
which a pause is over. -/
def Stop.Fits (time : Instant) (m : Member) : Stop → Prop
  | .sleeping => m.IsResting
  | .pausing nap rest => (∃ d, m.progress = some (.pause d rest) ∧ m.since + d = time) ∧ ∀ e, nap ≠ .ended e
  | .requesting phase => m.progress = some (.request phase)
  | .replying phase _ => m.progress = some (.request phase)

/-- The call of a contender's lock has come as far as that of a member. -/
def Follows (c : Contender) (m : Member) : Prop :=
  c.lock = m.lock ∧
    match c.routine with
    | none => m.IsResting
    | some r => r.stop.Fits r.timer.time m

/-- What a contender does next is what the call of a member has come to. -/
def Doing.Fits (now : Instant) (m : Member) : Doing → Prop
  | .program => m.IsResting
  | .call progress => m.progress = some progress ∧ m.since = now
  | .serve phase => m.progress = some (.request phase)
  | .reply phase _ => m.progress = some (.request phase)

/-- What may have become by now of the lock of a contender of this name that was one of these. -/
inductive Lives (cs : List Contender) (now : Instant) (name : String) : Member → Prop where
  | intro {c steps} :
    c ∈ cs →
    c.name = name →
    Member.History Member.Punctual { lock := c.lock } steps →
    (Member.after { lock := c.lock } steps).since ≤ now →
    Lives cs now name (Member.after { lock := c.lock } steps)

/-- A contender has a history, and its timer does not lie in the past. -/
structure Traced (cs : List Contender) (now : Instant) (c : Contender) : Prop where
  lives : ∃ m, Lives cs now c.name m ∧ Follows c m
  timer : ∀ r, c.routine = some r → now ≤ r.timer.time

/-- All contenders have histories up to now. -/
structure Sound (cs : List Contender) (now : Instant) (s : Simulation) : Prop where
  clock : s.now = now
  traced : ∀ c ∈ s.contenders, Traced cs now c

variable {cs : List Contender} {s s' : Simulation} {c c' : Contender} {m m' : Member} {now now' : Instant}
  {name : String} {r : Routine} {w : Work} {doing : Doing} {input : Input}

/-! ## Histories that go on -/

lemma Lives.since_le (h : Lives cs now name m) : m.since ≤ now := by
  cases h with
  | intro _ _ _ hsince => exact hsince

lemma Lives.later (h : Lives cs now name m) (hle : now ≤ now') : Lives cs now' name m := by
  cases h with
  | intro hc hname hhist hsince => exact .intro hc hname hhist (hsince.trans hle)

lemma Lives.step (h : Lives cs now name m) (hp : Member.Punctual m input) (hst : m.Step input m')
    (hnow : m'.since ≤ now) : Lives cs now name m' := by
  cases h with
  | intro hc hname hhist => exact .intro hc hname (hhist.cons (t := ⟨input, m'⟩) hp hst) hnow

/-- A step that is not the end of a pause is punctual if the clock does not go back. -/
lemma punctual_of_le (hle : m.since ≤ input.reading.now) (hne : ∀ r, input ≠ .wake .elapsed r) :
    Member.Punctual m input :=
  ⟨hle, fun _ _ r _ hi => absurd hi (hne r)⟩

/-- A call that is dropped leaves a member at rest. -/
lemma Lives.drop (h : Lives cs now name m) : ∃ m', Lives cs now name m' ∧ m'.lock = m.lock ∧ m'.IsResting := by
  let r : Reading := ⟨now, 0, false⟩
  have hp : Member.Punctual m (.drop r) := punctual_of_le h.since_le nofun
  exact ⟨_, h.step hp .drop le_rfl, rfl, trivial⟩

/-! ## Contenders that are put in their place -/

lemma mem_put (h : c' ∈ (s.put c).contenders) : c' = c ∨ c' ∈ s.contenders := by
  obtain ⟨old, hmem, he⟩ := List.mem_map.mp h
  split_ifs at he
  · exact .inl he.symm
  · exact .inr (he ▸ hmem)

namespace Sound

lemma put (h : Sound cs now s) (hc : Traced cs now c) : Sound cs now (s.put c) := by
  refine ⟨h.clock, fun c' hmem => ?_⟩
  rcases mem_put hmem with rfl | hmem
  · exact hc
  · exact h.traced c' hmem

/-- A contender waits for a timer. -/
lemma suspend {stop : Stop} {d : Duration} (h : Sound cs now s) (hl : Lives cs now c.name m) (hlock : c.lock = m.lock)
    (hstop : stop.Fits (now + d) m) : Sound cs now (s.suspend c w stop d) := by
  have hticket : Sound cs now { s with tickets := s.tickets + 1 } := ⟨h.clock, h.traced⟩
  obtain rfl := h.clock
  refine hticket.put ⟨⟨m, hl, hlock, hstop⟩, ?_⟩
  rintro _ ⟨⟩
  exact Nat.le_add_right _ _

/-- A contender is done. -/
lemma finish (h : Sound cs now s) (hl : Lives cs now c.name m) (hlock : c.lock = m.lock) (hrest : m.IsResting) :
    Sound cs now (s.put { c with routine := none }) := by
  refine h.put ⟨⟨m, hl, hlock, hrest⟩, ?_⟩
  rintro _ ⟨⟩

end Sound

/-! ## A contender that goes on -/

lemma takeInjected_frame (s : Simulation) (kind : CallKind) :
    (s.takeInjected kind).2.contenders = s.contenders ∧ (s.takeInjected kind).2.now = s.now := by
  rw [takeInjected]
  split <;> exact ⟨rfl, rfl⟩

/-- A store call touches neither contenders nor time. -/
lemma serve_frame (s : Simulation) (c : Contender) (request : Request) :
    (s.serve c request).2.contenders = s.contenders ∧ (s.serve c request).2.now = s.now := by
  have h := s.takeInjected_frame request.kind
  rcases hinjected : s.takeInjected request.kind with ⟨injected, s₁⟩
  rw [hinjected] at h
  cases request with
  | list =>
    rw [serve, show s.takeInjected .list = _ from hinjected]
    cases injected <;> exact h
  | create name contents =>
    rw [serve, show s.takeInjected .create = _ from hinjected]
    cases injected <;> exact h
  | delete name =>
    rw [serve, show s.takeInjected .delete = _ from hinjected]
    cases injected <;> exact h

namespace Sound

/-- A contender goes on, and its lock with it. -/
theorem go (fuel : Nat) (h : Sound cs now s) (hl : Lives cs now c.name m) (hlock : c.lock = m.lock)
    (hd : doing.Fits now m) : Sound cs now (go fuel s c w doing) := by
  induction fuel generalizing s c w doing m with
  | zero =>
    obtain ⟨m', hl', hlock', hrest⟩ := hl.drop
    exact h.finish hl' (hlock.trans hlock'.symm) hrest
  | succ fuel ih =>
    -- After a step of its lock a call goes on at once.
    have hcall : ∀ (input : Input) {t : Lock.Turn} {c' : Contender} {w' : Work}, input.reading.now = s.now →
        (∀ r, input ≠ .wake .elapsed r) → m.Step input (.ofTurn t s.now) → c'.name = c.name → c'.lock = t.1 →
        Sound cs now (Simulation.go fuel s c' w' (.call t.2)) := by
      intro input t c' w' hread hne hst hname hlock'
      rw [h.clock] at hread hst
      refine ih (m := .ofTurn t now) h ?_ hlock' ⟨rfl, rfl⟩
      rw [hname]
      exact hl.step (punctual_of_le (hread ▸ hl.since_le) hne) hst le_rfl
    cases doing with
    | program =>
      rw [Simulation.go]
      split
      case h_1 => exact h.finish hl hlock hd
      case h_2 d rest _ => exact h.suspend hl hlock hd
      case h_3 limit cancel rest _ =>
        rw [hlock]
        exact hcall (.acquire limit (s.reading c _)) rfl (by rintro _ ⟨⟩) (.acquire hd) rfl rfl
      case h_4 rest _ =>
        rw [hlock]
        exact hcall (.release (s.reading c w)) rfl (by rintro _ ⟨⟩) (.release hd) rfl rfl
    | call progress =>
      obtain ⟨hp, hsince⟩ := hd
      cases progress with
      | done o =>
        have hrest : m.IsResting := by
          rw [Member.IsResting, hp]
          trivial
        exact ih (s := s.note _) ⟨h.clock, h.traced⟩ hl hlock hrest
      | pause d rest =>
        obtain ⟨nap, hlook, hnap⟩ := Nap.look_begin w.channel false
        rw [Simulation.go]
        simp only [hlook]
        exact h.suspend hl hlock ⟨⟨d, hp, by rw [hsince]⟩, hnap⟩
      | request phase =>
        rw [Simulation.go]
        split_ifs
        · exact ih h hl hlock hp
        · exact h.suspend hl hlock hp
    | serve phase =>
      rw [Simulation.go]
      have hframe := s.serve_frame c phase.request
      generalize s.serve c phase.request = served at hframe
      obtain ⟨answer, s'⟩ := served
      obtain ⟨hcontenders, hnow⟩ := hframe
      have h' : Sound cs now s' := ⟨hnow.trans h.clock, hcontenders ▸ h.traced⟩
      dsimp only
      split_ifs
      · exact ih h' hl hlock hd
      · exact h'.suspend hl hlock hd
    | reply phase answer =>
      rw [Simulation.go, hlock]
      exact hcall (.answer phase answer (s.reading c w)) rfl (by rintro _ ⟨⟩) (.answer hd) rfl rfl

/-! ## What happens to one contender -/

/-- The pause of a contender is looked at: when its time is up, or before, where something was sent. -/
lemma look {nap : Nap} {rest : Lock.Rest} {isOver : Bool} (h : Sound cs now s) (hl : Lives cs now c.name m)
    (hlock : c.lock = m.lock) (hstop : (Stop.pausing nap rest).Fits r.timer.time m) (htimer : now ≤ r.timer.time)
    (hover : isOver = true → r.timer.time ≤ now) : Sound cs now (s.look c r nap rest isOver) := by
  obtain ⟨⟨d, hp, htime⟩, hnap⟩ := hstop
  rw [Simulation.look]
  rcases hlook : nap.look r.work.channel isOver false with ⟨nap', channel⟩
  dsimp only
  split
  case h_1 how =>
    have hnow : (s.reading c { r.work with channel }).now = now := h.clock
    have hpunctual : Member.Punctual m (.wake how (s.reading c { r.work with channel })) := by
      refine ⟨hl.since_le.trans_eq hnow.symm, ?_⟩
      rintro d' rest' r' hp' ⟨⟩
      cases hp.symm.trans hp'
      cases isOver with
      | true => exact htime.trans_le ((hover rfl).trans_eq hnow.symm)
      | false => exact absurd (congrArg Prod.fst hlook) (Nap.look_early hnap _ _)
    rw [hlock]
    exact h.go patience (hl.step hpunctual (.wake hp) hnow.le) rfl ⟨rfl, hnow⟩
  case h_2 hnot =>
    refine h.put ⟨⟨m, hl, hlock, ⟨d, hp, htime⟩, fun e he => hnot e he⟩, ?_⟩
    rintro _ ⟨⟩
    exact htimer

/-- The timer of a contender fires. -/
lemma wake (h : Sound cs now s) (hc : Traced cs now c) (hr : c.routine = some r) (htime : r.timer.time = now) :
    Sound cs now (s.wake c r) := by
  obtain ⟨⟨m, hl, hlock, hfollows⟩, -⟩ := hc
  rw [hr] at hfollows
  dsimp only at hfollows
  rw [Simulation.wake]
  split
  case h_1 hstop =>
    rw [hstop] at hfollows
    exact h.go patience hl hlock hfollows
  case h_2 nap rest hstop => exact h.look hl hlock (hstop ▸ hfollows) htime.ge fun _ => htime.le
  case h_3 phase hstop =>
    rw [hstop] at hfollows
    exact h.go patience hl hlock hfollows
  case h_4 phase answer hstop =>
    rw [hstop] at hfollows
    exact h.go patience hl hlock hfollows

/-- The channel of a contender's call is used. -/
lemma signal (h : Sound cs now s) (hc : Traced cs now c) (hr : c.routine = some r)
    (use : CancelChannel → CancelChannel) : Sound cs now (s.signal c r use) := by
  obtain ⟨⟨m, hl, hlock, hfollows⟩, htimer⟩ := hc
  rw [hr] at hfollows
  have htimer := htimer r hr
  rw [Simulation.signal]
  dsimp only at hfollows ⊢
  split
  case h_1 nap rest hstop => exact h.look hl hlock (hstop ▸ hfollows) htimer nofun
  case h_2 =>
    refine h.put ⟨⟨m, hl, hlock, hfollows⟩, ?_⟩
    rintro _ ⟨⟩
    exact htimer

/-- A contender is given a program. -/
lemma start {activity : Activity} {items : List Item} (h : Sound cs now s) (hc : Traced cs now c) :
    Sound cs now (s.start c activity items) := by
  obtain ⟨⟨m, hl, hlock, hfollows⟩, -⟩ := hc
  rw [Simulation.start]
  split
  case h_1 => exact ⟨h.clock, h.traced⟩
  case h_2 hnone =>
    rw [hnone] at hfollows
    exact h.go patience hl hlock hfollows

/-- What a contender does is dropped. -/
lemma abandon (h : Sound cs now s) (hc : Traced cs now c) : Sound cs now (s.abandon c) := by
  obtain ⟨⟨m, hl, hlock, -⟩, -⟩ := hc
  obtain ⟨m', hl', hlock', hrest⟩ := hl.drop
  have hdone := h.finish hl' (hlock.trans hlock'.symm) hrest
  exact ⟨hdone.clock, hdone.traced⟩

/-- Whatever is done to a simulation, its contenders have histories. -/
theorem apply (h : Sound cs now s) (command : Command) : Sound cs now (s.apply command) := by
  have hfound : ∀ {who : String} {c : Contender}, s.find? who = some c → Traced cs now c :=
    fun hc => h.traced _ (List.mem_of_find?_eq_some hc)
  cases command with
  | start who activity items =>
    rw [Simulation.apply]
    dsimp only
    split
    case h_1 => exact h
    case h_2 c hc => exact h.start (hfound hc)
  | cancel | dropCancel =>
    rw [Simulation.apply]
    dsimp only
    split
    case h_1 => exact h
    case h_2 c hc =>
      split
      case h_1 => exact h
      case h_2 r hr => exact h.signal (hfound hc) hr _
  | abandon who =>
    rw [Simulation.apply]
    dsimp only
    split
    case h_1 => exact h
    case h_2 c hc => exact h.abandon (hfound hc)
  | look who =>
    rw [Simulation.apply]
    dsimp only
    split
    case h_1 => exact h
    case h_2 => exact ⟨h.clock, h.traced⟩
  | put | remove | names | change | inject => exact ⟨h.clock, h.traced⟩

end Sound

/-! ## Asking a pause to end -/

variable {nap : Nap} {rest : Lock.Rest} {channel : CancelChannel}

/-- True that is sent during a pause ends it at once. -/
theorem signal_true (hstop : r.stop = .pausing .watching rest) (hchannel : r.work.channel = some channel)
    (hsender : channel.hasSender = true) :
    ∃ work, s.signal c r (·.send true) =
      go patience s { c with lock := (c.lock.wake rest .cancelled (s.reading c work)).1 } work
        (.call (c.lock.wake rest .cancelled (s.reading c work)).2) := by
  have hlook : Nap.watching.look (some (channel.send true)) false false =
      (.ended .cancelled, some (channel.send true).see) := by
    rw [CancelChannel.send, if_pos hsender, Nap.look, Nap.watch]
    rfl
  refine ⟨{ r.work with channel := some (channel.send true).see }, ?_⟩
  rw [signal]
  dsimp only
  rw [hstop]
  dsimp only
  rw [Simulation.look]
  dsimp only
  rw [hchannel, Option.map_some, hlook]

/-- If nobody is left to send, a pause that has noticed all that was sent waits for its timer alone. -/
theorem signal_dropSender (hstop : r.stop = .pausing nap rest) (hnap : ∀ e, nap ≠ .ended e)
    (hseen : ∀ channel ∈ r.work.channel, channel.isUnseen = false) :
    s.signal c r (·.dropSender) =
      s.put { c with routine := some ⟨.pausing .alone rest, r.timer,
        { r.work with channel := r.work.channel.map (·.dropSender) }⟩ } := by
  have hlook : nap.look (r.work.channel.map (·.dropSender)) false false =
      (.alone, r.work.channel.map (·.dropSender)) := by
    cases nap with
    | ended e => exact absurd rfl (hnap e)
    | alone => rfl
    | watching =>
      cases hchannel : r.work.channel with
      | none => rfl
      | some channel =>
        have hdropped : channel.dropSender.isUnseen = false := hseen channel hchannel
        rw [Option.map_some, Nap.look, Nap.watch_of_seen hdropped]
        rfl
  rw [signal]
  dsimp only
  rw [hstop]
  dsimp only
  rw [Simulation.look]
  dsimp only
  rw [hlook]

/-- A pause that waits for its timer alone elapses when that fires. -/
theorem wake_alone (hstop : r.stop = .pausing .alone rest) :
    s.wake c r = go patience s { c with lock := (c.lock.wake rest .elapsed (s.reading c r.work)).1 } r.work
      (.call (c.lock.wake rest .elapsed (s.reading c r.work)).2) := by
  rw [wake, hstop]
  rfl

/-! ## The event that comes next -/

/-- This is one of these contenders whose timer fires before those of the others, if any has one. -/
structure IsFirst (cs : List Contender) (first : Option (Contender × Routine)) : Prop where
  there : ∀ c r, first = some (c, r) → c ∈ cs ∧ c.routine = some r
  least : ∀ c ∈ cs, ∀ r, c.routine = some r → ∃ c' r', first = some (c', r') ∧ r'.timer.time ≤ r.timer.time

lemma time_le_of_before {a b : Timer} (h : a.before b = true) : a.time ≤ b.time := by
  simp only [Timer.before, Bool.or_eq_true, Bool.and_eq_true, decide_eq_true_eq, beq_iff_eq] at h
  lia

lemma time_le_of_not_before {a b : Timer} (h : ¬ a.before b = true) : b.time ≤ a.time := by
  simp only [Timer.before, Bool.or_eq_true, Bool.and_eq_true, decide_eq_true_eq, beq_iff_eq] at h
  lia

/-- One more contender does not come first. -/
lemma IsFirst.keep {first : Option (Contender × Routine)} (h : IsFirst cs first)
    (hle : ∀ r, c.routine = some r → ∃ c' r', first = some (c', r') ∧ r'.timer.time ≤ r.timer.time) :
    IsFirst (cs ++ [c]) first := by
  refine ⟨fun c' r' hfirst => ?_, fun c' hmem r' hr' => ?_⟩
  · obtain ⟨hmem, hr'⟩ := h.there c' r' hfirst
    exact ⟨List.mem_append_left _ hmem, hr'⟩
  · rcases List.mem_append.mp hmem with hmem | hmem
    · exact h.least c' hmem r' hr'
    · obtain rfl := List.mem_singleton.mp hmem
      exact hle r' hr'

/-- One more contender comes first. -/
lemma IsFirst.take {first : Option (Contender × Routine)} (h : IsFirst cs first) (hr : c.routine = some r)
    (hle : ∀ c' r', first = some (c', r') → r.timer.time ≤ r'.timer.time) : IsFirst (cs ++ [c]) (some (c, r)) := by
  refine ⟨?_, fun c' hmem r' hr' => ⟨c, r, rfl, ?_⟩⟩
  · rintro _ _ ⟨⟩
    exact ⟨List.mem_append_right _ (List.mem_singleton_self c), hr⟩
  · rcases List.mem_append.mp hmem with hmem | hmem
    · obtain ⟨c₁, r₁, hfirst, hle₁⟩ := h.least c' hmem r' hr'
      exact (hle c₁ r₁ hfirst).trans hle₁
    · obtain rfl := List.mem_singleton.mp hmem
      rw [hr] at hr'
      cases hr'
      exact le_rfl

lemma isFirst_firstTimer? (s : Simulation) : IsFirst s.contenders s.firstTimer? := by
  rw [firstTimer?]
  induction s.contenders using List.reverseRecOn with
  | nil =>
    refine ⟨?_, ?_⟩
    · rintro _ _ ⟨⟩
    · intro c hc
      cases hc
  | append_singleton cs c ih =>
    rw [List.foldl_append, List.foldl_cons, List.foldl_nil]
    generalize List.foldl _ none cs = first at ih
    split
    case h_1 hnone =>
      refine ih.keep fun r hr => ?_
      cases hnone.symm.trans hr
    case h_2 r hr =>
      split
      case h_1 =>
        refine ih.take hr ?_
        rintro _ _ ⟨⟩
      case h_2 c' best =>
        split_ifs with hbefore
        · refine ih.take hr ?_
          rintro _ _ ⟨⟩
          exact time_le_of_before hbefore
        · refine ih.keep fun r' hr' => ⟨c', best, rfl, ?_⟩
          cases hr.symm.trans hr'
          exact time_le_of_not_before hbefore

/-- The event that comes next is the first command or a timer that fires, and is not later than any of the others. -/
lemma due_spec {commands : List (Instant × Command)} {due : Due} (hsorted : commands.Pairwise fun a b => a.1 ≤ b.1)
    (h : s.due? commands = some due) :
    (∀ c ∈ s.contenders, ∀ r, c.routine = some r → due.time ≤ r.timer.time) ∧
      (∀ p ∈ commands, due.time ≤ p.1) ∧
      ((∃ time command rest, due = .command time command rest ∧ commands = (time, command) :: rest) ∨
        ∃ c r, due = .timer c r ∧ c ∈ s.contenders ∧ c.routine = some r) := by
  have hfirst := s.isFirst_firstTimer?
  rw [due?.eq_def] at h
  generalize s.firstTimer? = first at h hfirst
  obtain ⟨hthere, hleast⟩ := hfirst
  have htimer : ∀ c r, first = some (c, r) → ∀ c' ∈ s.contenders, ∀ r', c'.routine = some r' →
      r.timer.time ≤ r'.timer.time := by
    rintro c r rfl c' hc' r' hr'
    obtain ⟨_, _, ⟨⟩, hle⟩ := hleast c' hc' r' hr'
    exact hle
  cases commands with
  | nil =>
    rcases first with _ | ⟨c, r⟩ <;> cases h
    exact ⟨htimer c r rfl, nofun, .inr ⟨c, r, rfl, hthere c r rfl⟩⟩
  | cons p rest =>
    obtain ⟨time, command⟩ := p
    have hhead : ∀ p ∈ (time, command) :: rest, time ≤ p.1 := by
      rw [List.forall_mem_cons]
      exact ⟨le_rfl, (List.pairwise_cons.mp hsorted).1⟩
    have hcommand : ∃ time' command' rest', Due.command time command rest = .command time' command' rest' ∧
        (time, command) :: rest = (time', command') :: rest' := ⟨_, _, _, rfl, rfl⟩
    rcases first with _ | ⟨c, r⟩
    · cases h
      refine ⟨fun c hc r hr => ?_, hhead, .inl hcommand⟩
      obtain ⟨_, _, ⟨⟩, -⟩ := hleast c hc r hr
    · dsimp only at h
      split_ifs at h with hle <;> cases h
      · exact ⟨fun c' hc' r' hr' => hle.trans (htimer c r rfl c' hc' r' hr'), hhead, .inl hcommand⟩
      · refine ⟨htimer c r rfl, fun p hp => ?_, .inr ⟨c, r, rfl, hthere c r rfl⟩⟩
        exact (le_of_not_ge hle).trans (hhead p hp)

/-! ## The whole run -/

/-- Time goes on, up to the next event. -/
lemma Sound.later (h : Sound cs now s) (hle : now ≤ now')
    (htimers : ∀ c ∈ s.contenders, ∀ r, c.routine = some r → now' ≤ r.timer.time) :
    Sound cs now' { s with now := now' } := by
  refine ⟨rfl, fun c hc => ⟨?_, htimers c hc⟩⟩
  obtain ⟨m, hl, hf⟩ := (h.traced c hc).lives
  exact ⟨m, hl.later hle, hf⟩

/-- Whatever events happen, the contenders have histories. -/
theorem Sound.loop {horizon : Instant} (fuel : Nat) {commands : List (Instant × Command)} (h : Sound cs now s)
    (hsorted : commands.Pairwise fun a b => a.1 ≤ b.1) (hlater : ∀ p ∈ commands, now ≤ p.1) :
    ∃ now', Sound cs now' (loop horizon fuel commands s) := by
  induction fuel generalizing s now commands with
  | zero => exact ⟨now, h⟩
  | succ fuel ih =>
    rw [Simulation.loop]
    split
    case h_1 => exact ⟨now, h⟩
    case h_2 due hdue =>
      obtain ⟨htimers, hcommands, hkind⟩ := due_spec hsorted hdue
      split_ifs
      · exact ⟨now, h⟩
      · have hnow : now ≤ due.time := by
          rcases hkind with ⟨time, command, rest, rfl, rfl⟩ | ⟨c, r, rfl, hc, hr⟩
          · exact hlater _ List.mem_cons_self
          · exact (h.traced c hc).timer r hr
        have h' := h.later hnow htimers
        rcases hkind with ⟨time, command, rest, rfl, rfl⟩ | ⟨c, r, rfl, hc, hr⟩
        · exact ih (h'.apply command) (List.pairwise_cons.mp hsorted).2 (List.forall_mem_cons.mp hcommands).2
        · exact ih (h'.wake (h'.traced c hc) hr rfl) hsorted hcommands

/-- In a run that begins with contenders at rest, each of them has a lock that began like that of one of this name,
and has come where it is by a history in which the clock does not go back and every pause that elapses lasts as long
as it was meant to. -/
theorem run_history (s : Simulation) (horizon : Instant) (commands : List (Instant × Command))
    (hrest : ∀ c ∈ s.contenders, c.routine = none) (hlater : ∀ p ∈ commands, s.now ≤ p.1) :
    ∀ c ∈ (s.run horizon commands).contenders, ∃ c₀ ∈ s.contenders, c₀.name = c.name ∧
      ∃ steps, Member.History Member.Punctual { lock := c₀.lock } steps ∧
        Follows c (Member.after { lock := c₀.lock } steps) := by
  have hstart : Sound s.contenders s.now s := by
    refine ⟨rfl, fun c hc => ⟨⟨_, .intro hc rfl .nil (Nat.zero_le _), ?_⟩, ?_⟩⟩
    · refine ⟨rfl, ?_⟩
      rw [hrest c hc]
      trivial
    · intro r hr
      cases (hrest c hc).symm.trans hr
  have hsorted : (commands.mergeSort fun a b => decide (a.1 ≤ b.1)).Pairwise fun a b => decide (a.1 ≤ b.1) = true := by
    apply List.pairwise_mergeSort
    · intro a b c hab hbc
      exact decide_eq_true ((of_decide_eq_true hab).trans (of_decide_eq_true hbc))
    · intro a b
      simpa using Nat.le_total a.1 b.1
  obtain ⟨now, h⟩ := hstart.loop maxEvents (hsorted.imp of_decide_eq_true)
    fun p hp => hlater p (List.mem_mergeSort.mp hp)
  intro c hc
  obtain ⟨m, hl, hf⟩ := (h.traced c hc).lives
  cases hl with
  | intro hc₀ hname hhist => exact ⟨_, hc₀, hname, _, hhist, hf⟩

end Simulation

end StoreLock
