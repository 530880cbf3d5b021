import StoreLock.Simulation.Basic

/-!
# Running a simulation

One event after another: the earliest of the next command and the first timer, a command first where
both are due. A contender that an event concerns runs on until it has to wait again.
-/

namespace StoreLock.Simulation

/-- Notes what happens now. -/
def note (s : Simulation) (e : Event) : Simulation :=
  { s with log := (s.now, e) :: s.log }

/-- The contender with this name. -/
def find? (s : Simulation) (who : String) : Option Contender :=
  s.contenders.find? fun c => c.name == who

/-- Puts a contender in the place of the one with its name. -/
def put (s : Simulation) (c : Contender) : Simulation :=
  { s with contenders := s.contenders.map fun old => if old.name == c.name then c else old }

/-- Lets a contender wait. -/
def suspend (s : Simulation) (c : Contender) (work : Work) (stop : Stop) (duration : Duration) :
    Simulation :=
  let timer : Timer := ⟨s.now + duration, s.tickets⟩
  { s with tickets := s.tickets + 1 }.put { c with routine := some ⟨stop, timer, work⟩ }

/-- What a contender's lock reads now. -/
def reading (s : Simulation) (c : Contender) (work : Work) : Reading where
  now := s.now
  unixMillis := c.unixMillis + Duration.millis s.now
  cancelled := (work.channel.map (·.value)).getD false

/-- Takes the error that the next call of a kind is to fail with. -/
def takeInjected (s : Simulation) (kind : CallKind) : Option StoreError × Simulation :=
  match s.injected.get kind with
  | [] => (none, s)
  | e :: _ => (some e, { s with injected := s.injected.modify kind List.tail })

/-- Carries out a request of a contender's lock, and logs it. -/
def serve (s : Simulation) (c : Contender) : (request : Request) → request.Answer × Simulation
  | .list =>
    let start := c.lock.listing
    match s.takeInjected .list with
    | (some e, s) => (.error e, s.note (.listed c.name start (.error e)))
    | (none, s) =>
      let (got, store) := s.store.list c.client s.now start
      let got := got.map c.order.arrange
      (got, note { s with store } (.listed c.name start got))
  | .create name contents =>
    match s.takeInjected .create with
    | (some e, s) => (.error e, s.note (.created c.name name contents (.error e)))
    | (none, s) =>
      let (got, store) := s.store.create c.client s.now name contents
      (got, note { s with store } (.created c.name name contents got))
  | .delete name =>
    match s.takeInjected .delete with
    | (some e, s) => (.error e, s.note (.deleted c.name name (.error e)))
    | (none, s) =>
      let (got, store) := s.store.delete c.client s.now name
      (got, note { s with store } (.deleted c.name name got))

/-- What a contender does next, without waiting for anything. -/
inductive Doing
  /-- It takes up the next part of its program. -/
  | program
  /-- It goes on with the call in progress. -/
  | call (progress : Lock.Progress)
  /-- Its store call takes effect. -/
  | serve (phase : Lock.Phase)
  /-- The answer to its store call arrives. -/
  | reply (phase : Lock.Phase) (answer : phase.request.Answer)

/-- Lets a contender go on until it has to wait or is done; `fuel` bounds the number of steps. -/
def go : (fuel : Nat) → Simulation → Contender → Work → Doing → Simulation
  | 0, s, c, _, _ => s.put { c with routine := none }
  | fuel + 1, s, c, w, .program =>
    match w.rest with
    | [] => s.put { c with routine := none }
    | .sleep duration :: rest => s.suspend c ⟨.program, none, rest⟩ .sleeping duration
    | .acquire limit cancel :: rest =>
      let w : Work := ⟨.acquire, cancel.map fun value => { value }, rest⟩
      let (lock, progress) := c.lock.acquire limit (s.reading c w)
      go fuel s { c with lock } w (.call progress)
    | .release :: rest =>
      let (lock, progress) := c.lock.release
      go fuel s { c with lock } ⟨.release, none, rest⟩ (.call progress)
  | fuel + 1, s, c, w, .call (.done outcome) =>
    let s := s.note (.ended c.name w.activity outcome c.rested)
    go fuel s c { w with channel := none } .program
  | _ + 1, s, c, w, .call (.pause duration rest) =>
    let (nap, channel) := Nap.begin w.channel
    let (nap, channel) := nap.look channel false false
    s.suspend c { w with channel } (.pausing nap rest) duration
  | fuel + 1, s, c, w, .call (.request phase) =>
    let before := (c.latency.get phase.request.kind).before
    if before = 0 then go fuel s c w (.serve phase)
    else s.suspend c w (.requesting phase) before
  | fuel + 1, s, c, w, .serve phase =>
    let (answer, s) := s.serve c phase.request
    let after := (c.latency.get phase.request.kind).after
    if after = 0 then go fuel s c w (.reply phase answer)
    else s.suspend c w (.replying phase answer) after
  | fuel + 1, s, c, w, .reply phase answer =>
    let (lock, progress) := c.lock.resume phase answer (s.reading c w)
    go fuel s { c with lock } w (.call progress)

/-- How many steps a contender may take before it waits. -/
def patience : Nat := 1000000

/-- Looks at a contender's pause, and lets the contender go on if the pause has ended. -/
def look (s : Simulation) (c : Contender) (r : Routine) (nap : Nap) (rest : Lock.Rest)
    (isOver : Bool) : Simulation :=
  let (nap, channel) := nap.look r.work.channel isOver false
  let work := { r.work with channel }
  match nap with
  | .ended how =>
    let (lock, progress) := c.lock.wake rest how (s.reading c work)
    go patience s { c with lock } work (.call progress)
  | nap => s.put { c with routine := some { r with stop := .pausing nap rest, work } }

/-- Lets a contender go on whose timer has fired. -/
def wake (s : Simulation) (c : Contender) (r : Routine) : Simulation :=
  match r.stop with
  | .sleeping => go patience s c r.work .program
  | .pausing nap rest => s.look c r nap rest true
  | .requesting phase => go patience s c r.work (.serve phase)
  | .replying phase answer => go patience s c r.work (.reply phase answer)

/-- Uses the cancel channel of a call. A pause takes notice of that at once. -/
def signal (s : Simulation) (c : Contender) (r : Routine) (use : CancelChannel → CancelChannel) :
    Simulation :=
  let r := { r with work := { r.work with channel := r.work.channel.map use } }
  match r.stop with
  | .pausing nap rest => s.look c r nap rest false
  | _ => s.put { c with routine := some r }

/-- Gives a contender a program, unless it is in one already. -/
def start (s : Simulation) (c : Contender) (activity : Activity) (items : List Item) : Simulation :=
  match c.routine with
  | some _ => s.note (.busy c.name activity)
  | none => go patience s c ⟨activity, none, items⟩ .program

/-- Drops what a contender is doing. -/
def abandon (s : Simulation) (c : Contender) : Simulation :=
  (s.put { c with routine := none }).note (.abandoned c.name c.rested)

/-- Does to the simulation what a command asks for. -/
def apply (s : Simulation) (command : Command) : Simulation :=
  let concerning (who : String) (f : Contender → Simulation) : Simulation :=
    match s.find? who with
    | none => s
    | some c => f c
  let routineOf (who : String) (f : Contender → Routine → Simulation) : Simulation :=
    concerning who fun c =>
      match c.routine with
      | none => s
      | some r => f c r
  match command with
  | .start who activity items => concerning who fun c => s.start c activity items
  | .cancel who value => routineOf who fun c r => s.signal c r (·.send value)
  | .dropCancel who => routineOf who fun c r => s.signal c r (·.dropSender)
  | .abandon who => concerning who s.abandon
  | .look who => concerning who fun c => s.note (.seen who c.status)
  | .put client name contents =>
    let (got, store) := s.store.create client s.now name contents
    note { s with store } (.put got)
  | .remove client name =>
    let (got, store) := s.store.delete client s.now name
    note { s with store } (.removed got)
  | .names => s.note (.names s.store.objectNames)
  | .change f => { s with store := f s.store }
  | .inject kind e => { s with injected := s.injected.modify kind (· ++ [e]) }

/-- The contender whose timer fires first. -/
def firstTimer? (s : Simulation) : Option (Contender × Routine) :=
  s.contenders.foldl (fun first c =>
    match c.routine with
    | none => first
    | some r =>
      match first with
      | none => some (c, r)
      | some (_, best) => if r.timer.before best.timer then some (c, r) else first) none

/-- The event that comes next. -/
inductive Due
  | command (time : Instant) (command : Command) (rest : List (Instant × Command))
  | timer (c : Contender) (r : Routine)

/-- When an event happens. -/
def Due.time : Due → Instant
  | .command time _ _ => time
  | .timer _ r => r.timer.time

/-- The earliest of the next command and the first timer; a command first where both are due. -/
def due? (s : Simulation) (commands : List (Instant × Command)) : Option Due :=
  match s.firstTimer?, commands with
  | none, [] => none
  | some (c, r), [] => some (.timer c r)
  | none, (time, command) :: rest => some (.command time command rest)
  | some (c, r), (time, command) :: rest =>
    if time ≤ r.timer.time then some (.command time command rest) else some (.timer c r)

/-- Lets events happen, in turn, up to a time; `fuel` bounds how many. -/
def loop (horizon : Instant) :
    (fuel : Nat) → List (Instant × Command) → Simulation → Simulation
  | 0, _, s => s
  | fuel + 1, commands, s =>
    match s.due? commands with
    | none => s
    | some due =>
      if horizon < due.time then s
      else
        let s := { s with now := due.time }
        match due with
        | .command _ command rest => loop horizon fuel rest (s.apply command)
        | .timer c r => loop horizon fuel commands (s.wake c r)

/-- The most events of a run. -/
def maxEvents : Nat := 5000

/-- Runs a simulation up to a time, with commands that are given at theirs. -/
def run (s : Simulation) (horizon : Instant) (commands : List (Instant × Command)) : Simulation :=
  loop horizon maxEvents (commands.mergeSort fun a b => decide (a.1 ≤ b.1)) s

end StoreLock.Simulation
