import StoreLock.Proofs.Lock.Foreign
import StoreLock.Proofs.Lock.Poll
import StoreLock.Session
import StoreLock.Store.MemoryStore

/-!
# A store shared with others

A store may hold objects that are no entries of a lock's queue. Whatever they are, no lock does
anything else for their presence: neither the answers of the store to its other calls nor the queued
names in a listing depend on them (`MemoryStore.perform_only`), so two sessions that differ only in
them go on alike, through every call, pause and hook (`Session.Alike`), and end in the same way.
-/

namespace StoreLock

namespace MemoryStore

/-- The objects of one queue. -/
def queueOf (lockPrefix : String) (objects : List (String × ObjectRecord)) :
    List (String × ObjectRecord) :=
  objects.filter fun o => Entry.IsQueued lockPrefix o.1

/-- The store with the objects of one queue only. -/
def only (lockPrefix : String) (s : MemoryStore) : MemoryStore :=
  { s with objects := queueOf lockPrefix s.objects }

variable {s s' : MemoryStore} {lockPrefix : String} {client : Nat} {now : Instant}
  {name start : String} {contents : ByteArray} {kind : CallKind}
  {objects : List (String × ObjectRecord)}

/-- What is left out of the queue may be left out before or after other objects are. -/
lemma queueOf_filter (k : String × ObjectRecord → Bool) :
    queueOf lockPrefix ((queueOf lockPrefix objects).filter k) =
      queueOf lockPrefix (objects.filter k) := by
  simp only [queueOf, List.filter_filter]
  refine List.filter_congr fun o _ => ?_
  cases decide (Entry.IsQueued lockPrefix o.1) <;> simp

lemma queue_map_fst :
    Entry.queue lockPrefix (objects.map (·.1)) = (queueOf lockPrefix objects).map (·.1) := by
  rw [Entry.queue, List.filter_map]
  rfl

lemma queueOf_insert (o : ObjectRecord) :
    queueOf lockPrefix (insert (queueOf lockPrefix objects) name o) =
      queueOf lockPrefix (insert objects name o) := by
  have append (l₁ l₂ : List (String × ObjectRecord)) :
      queueOf lockPrefix (l₁ ++ l₂) = queueOf lockPrefix l₁ ++ queueOf lockPrefix l₂ :=
    List.filter_append _ _
  rw [insert, insert, append, append, queueOf_filter, ← List.singleton_append, append,
    queueOf_filter, ← append, List.singleton_append]

lemma begin_only : (s.only lockPrefix).begin kind =
    ((s.begin kind).1, (s.begin kind).2.only lockPrefix) := by
  rw [begin, begin]
  by_cases hu : s.isUnavailable = true
  · simp [only, hu]
  · by_cases hf : 0 < s.failures.get kind <;> simp [only, hu, hf]

lemma only_only : (s.only lockPrefix).only lockPrefix = s.only lockPrefix := by
  simp only [only, queueOf, List.filter_filter, Bool.and_self]

lemma create_only :
    ((s.only lockPrefix).create client now name contents).1 =
        (s.create client now name contents).1 ∧
      ((s.only lockPrefix).create client now name contents).2.only lockPrefix =
        (s.create client now name contents).2.only lockPrefix := by
  rw [create, create, begin_only]
  obtain ⟨failure, s₁⟩ := s.begin .create
  cases failure with
  | some e => exact ⟨rfl, only_only⟩
  | none =>
    refine ⟨rfl, ?_⟩
    simp only [only, queueOf_insert]

lemma delete_only :
    ((s.only lockPrefix).delete client now name).1 = (s.delete client now name).1 ∧
      ((s.only lockPrefix).delete client now name).2.only lockPrefix =
        (s.delete client now name).2.only lockPrefix := by
  rw [delete, delete, begin_only]
  obtain ⟨failure, s₁⟩ := s.begin .delete
  cases failure with
  | some e => exact ⟨rfl, only_only⟩
  | none =>
    have hname (p : String × ObjectRecord) :
        (if p.1 = name then (p.1, markDeleted client now p.2) else p).1 = p.1 := by
      split_ifs <;> rfl
    refine ⟨rfl, ?_⟩
    simp only [only, queueOf, List.filter_map, Function.comp_def, hname, List.filter_filter,
      Bool.and_self]

lemma list_only :
    (Reply.listing ((s.only lockPrefix).list client now start).1).queue lockPrefix =
        (Reply.listing (s.list client now start).1).queue lockPrefix ∧
      ((s.only lockPrefix).list client now start).2.only lockPrefix =
        (s.list client now start).2.only lockPrefix := by
  rw [list, list, begin_only]
  obtain ⟨failure, s₁⟩ := s.begin .list
  cases failure with
  | some e => exact ⟨rfl, only_only⟩
  | none =>
    refine ⟨?_, ?_⟩
    · simp only [only, Reply.queue, queue_map_fst, List.filter_filter, queueOf_filter]
    · simp only [only, queueOf_filter]

/-- Neither the answers of a store nor what becomes of a queue depend on the objects outside it, but
for the names in a listing that are not queued. -/
theorem perform_only (lockPrefix : String) (s : MemoryStore) (client : Nat) (now : Instant)
    (listing : String) (request : Request) :
    (request.reply (ObjectStore.perform (s.only lockPrefix) client now listing request).1).queue
          lockPrefix =
        (request.reply (ObjectStore.perform s client now listing request).1).queue lockPrefix ∧
      (ObjectStore.perform (s.only lockPrefix) client now listing request).2.only lockPrefix =
        (ObjectStore.perform s client now listing request).2.only lockPrefix := by
  cases request with
  | list => exact list_only
  | create name contents => exact create_only.imp_left (congrArg (Reply.done ·))
  | delete name => exact delete_only.imp_left (congrArg (Reply.done ·))

/-- Stores with the same queue tell a lock the same of it, and have the same queue after that. -/
lemma perform_eq_of_only (h : s.only lockPrefix = s'.only lockPrefix) (client : Nat) (now : Instant)
    (listing : String) (request : Request) :
    (request.reply (ObjectStore.perform s client now listing request).1).queue lockPrefix =
        (request.reply (ObjectStore.perform s' client now listing request).1).queue lockPrefix ∧
      (ObjectStore.perform s client now listing request).2.only lockPrefix =
        (ObjectStore.perform s' client now listing request).2.only lockPrefix := by
  have hs := perform_only lockPrefix s client now listing request
  have hs' := perform_only lockPrefix s' client now listing request
  rw [h] at hs
  exact ⟨hs.1.symm.trans hs'.1, hs.2.symm.trans hs'.2⟩

end MemoryStore

/-- A change of the store itself that does not make a difference for a queue where there was none. -/
def HookAction.Respects (lockPrefix : String) : HookAction MemoryStore → Prop
  | .change f => ∀ s s' : MemoryStore, s.only lockPrefix = s'.only lockPrefix →
    (f s).only lockPrefix = (f s').only lockPrefix
  | _ => True

/-- What a recorded call tells of a queue. -/
def CallRecord.cue (lockPrefix : String) (c : CallRecord) : Request × Reply :=
  (c.request, (c.request.reply c.answer).queue lockPrefix)

namespace Session

/-- Sessions that differ at most in what their stores hold outside a queue. -/
structure Alike (lockPrefix : String) (s s' : Session MemoryStore Nat) : Prop where
  clock : s.clock = s'.clock
  store : s.store.only lockPrefix = s'.store.only lockPrefix
  main : s.main = s'.main
  hooks : s.hooks = s'.hooks
  channel : s.channel = s'.channel
  calls : s.calls.map (·.cue lockPrefix) = s'.calls.map (·.cue lockPrefix)
  order : s.order = s'.order
  respects : ∀ h ∈ s.hooks, ∀ a ∈ h.actions, a.Respects lockPrefix

variable {s s' : Session MemoryStore Nat} {lockPrefix : String} {client : Nat}

namespace Alike

lemma reading (h : Alike lockPrefix s s') : s.reading = s'.reading := by
  rw [Session.reading, Session.reading, h.clock, h.channel]

lemma advance (h : Alike lockPrefix s s') (d : Duration) :
    Alike lockPrefix (s.advance d) (s'.advance d) :=
  { h with clock := congrArg (·.advance d) h.clock }

lemma with_store (h : Alike lockPrefix s s') {store store' : MemoryStore}
    (hs : store.only lockPrefix = store'.only lockPrefix) :
    Alike lockPrefix { s with store } { s' with store := store' } :=
  { h with store := hs }

lemma with_call (h : Alike lockPrefix s s') {c c' : CallRecord}
    (hc : c.cue lockPrefix = c'.cue lockPrefix) :
    Alike lockPrefix { s with calls := s.calls ++ [c] } { s' with calls := s'.calls ++ [c'] } where
  clock := h.clock
  store := h.store
  main := h.main
  hooks := h.hooks
  channel := h.channel
  calls := by
    simp only [List.map_append, h.calls, List.map_cons, hc, List.map_nil]
  order := h.order
  respects := h.respects

lemma with_hooks (h : Alike lockPrefix s s') {hooks : List (Hook MemoryStore)}
    (hr : ∀ k ∈ hooks, ∀ a ∈ k.actions, a.Respects lockPrefix) :
    Alike lockPrefix { s with hooks } { s' with hooks } :=
  { h with hooks := rfl, respects := hr }

lemma perform (h : Alike lockPrefix s s') (client : Nat) (listing : String) (request : Request) :
    (request.reply (ObjectStore.perform s.store client s.clock.now listing request).1).queue
          lockPrefix =
        (request.reply (ObjectStore.perform s'.store client s'.clock.now listing request).1).queue
          lockPrefix ∧
      Alike lockPrefix
        { s with store := (ObjectStore.perform s.store client s.clock.now listing request).2 }
        { s' with store := (ObjectStore.perform s'.store client s'.clock.now listing request).2 } := by
  have hp := MemoryStore.perform_eq_of_only h.store client s.clock.now listing request
  have ht : s'.clock.now = s.clock.now := congrArg (·.now) h.clock.symm
  refine ⟨?_, h.with_store ?_⟩
  · rw [ht]
    exact hp.1
  · rw [ht]
    exact hp.2

lemma act (h : Alike lockPrefix s s') {a : HookAction MemoryStore} (ha : a.Respects lockPrefix) :
    Alike lockPrefix (s.act a) (s'.act a) := by
  cases a with
  | create name =>
    rw [Session.act, Session.act, ← h.main]
    exact (h.perform s.main "" (.create name ByteArray.empty)).2
  | delete name =>
    rw [Session.act, Session.act, ← h.main]
    exact (h.perform s.main "" (.delete name)).2
  | advance d => exact h.advance d
  | cancel value => exact { h with channel := congrArg (·.map (·.send value)) h.channel }
  | dropSender => exact { h with channel := congrArg (·.map (·.dropSender)) h.channel }
  | change f => exact { h with store := ha _ _ h.store }

lemma foldl_act (h : Alike lockPrefix s s') {actions : List (HookAction MemoryStore)}
    (ha : ∀ a ∈ actions, a.Respects lockPrefix) :
    Alike lockPrefix (actions.foldl Session.act s) (actions.foldl Session.act s') := by
  induction actions generalizing s s' with
  | nil => exact h
  | cons a actions ih =>
    exact ih (h.act (ha a List.mem_cons_self)) fun b hb => ha b (List.mem_cons_of_mem _ hb)

lemma fire (h : Alike lockPrefix s s') (moment : Moment) :
    Alike lockPrefix (s.fire moment) (s'.fire moment) := by
  rw [Session.fire, Session.fire, ← h.hooks]
  refine (h.with_hooks ?_).foldl_act ?_
  · intro k hk a ha
    obtain ⟨k', hk', rfl⟩ := List.mem_map.mp hk
    refine h.respects k' (List.mem_of_mem_filter hk') a ?_
    split_ifs at ha <;> exact ha
  · intro a ha
    obtain ⟨k, hk, ha⟩ := List.mem_flatMap.mp ha
    exact h.respects k (List.mem_of_mem_filter hk) a ha

lemma call (h : Alike lockPrefix s s') (client : Nat) (listing : String) (request : Request) :
    (request.reply (s.call client listing request).1).queue lockPrefix =
        (request.reply (s'.call client listing request).1).queue lockPrefix ∧
      Alike lockPrefix (s.call client listing request).2 (s'.call client listing request).2 := by
  obtain ⟨hreply, h'⟩ := (h.fire (.before request.kind)).perform client listing request
  refine ⟨hreply, (h'.fire (.after request.kind)).with_call ?_⟩
  exact congrArg (Prod.mk request) hreply

lemma look (h : Alike lockPrefix s s') (nap : Nap) (isOver : Bool) :
    (s.look nap isOver).1 = (s'.look nap isOver).1 ∧
      Alike lockPrefix (s.look nap isOver).2 (s'.look nap isOver).2 := by
  rw [Session.look, Session.look, ← h.channel, ← h.order]
  exact ⟨rfl, { h with channel := rfl, order := rfl }⟩

/-- A pause ends in the same way. -/
lemma sleep (h : Alike lockPrefix s s') (d : Duration) :
    (s.sleep d).1 = (s'.sleep d).1 ∧ Alike lockPrefix (s.sleep d).2 (s'.sleep d).2 := by
  obtain ⟨n, channel, hb⟩ : ∃ n channel, Nap.begin s.channel = (n, channel) := ⟨_, _, rfl⟩
  have h₀ : Alike lockPrefix { s with channel } { s' with channel } := { h with channel := rfl }
  obtain ⟨hfirst, h₁⟩ := h₀.look n false
  obtain ⟨hlast, h₂⟩ := ((h₁.advance d).fire .pausing).look (Session.look { s with channel } n false).1 true
  rw [Session.sleep, Session.sleep, ← h.channel, hb]
  simp only [← hfirst, ← hlast]
  exact ⟨trivial, { h₂ with order := congrArg List.tail h₂.order }⟩

/-- A call of a lock comes to the same, however often it stops. -/
lemma run (h : Alike lockPrefix s s') (client fuel : Nat) {m : Member} {p : Lock.Progress}
    (hp : m.progress = some p) (hm : m.Coherent) (hl : m.lock.Minds lockPrefix) :
    (Session.run fuel s client (m.lock, p)).1 = (Session.run fuel s' client (m.lock, p)).1 ∧
      (Session.run fuel s client (m.lock, p)).2.1 = (Session.run fuel s' client (m.lock, p)).2.1 ∧
      (Session.run fuel s client (m.lock, p)).2.1.Minds lockPrefix ∧
      Alike lockPrefix (Session.run fuel s client (m.lock, p)).2.2
        (Session.run fuel s' client (m.lock, p)).2.2 := by
  -- After each stop the lock is still one that minds only its queue.
  induction fuel generalizing s s' m p with
  | zero =>
    cases p <;> exact ⟨rfl, rfl, hl, h⟩
  | succ fuel ih =>
    cases p with
    | done o => exact ⟨rfl, rfl, hl, h⟩
    | pause d rest =>
      obtain ⟨hended, h'⟩ := h.sleep d
      rw [Session.run, Session.run]
      simp only [← h'.reading, ← hended]
      have st : m.Step (.wake (s.sleep d).1 (s.sleep d).2.reading) _ := .wake hp
      exact ih h' rfl (st.coherent hm) (st.minds hm hl)
    | request phase =>
      obtain ⟨hreply, h'⟩ := h.call client m.lock.listing phase.request
      rw [Session.run, Session.run]
      simp only [← h'.reading, hl.resume_eq hreply.symm]
      have st : m.Step (.answer phase (s.call client m.lock.listing phase.request).1
        (s.call client m.lock.listing phase.request).2.reading) _ := .answer hp
      exact ih h' rfl (st.coherent hm) (st.minds hm hl)

end Alike

/-- What happens in a session with one lock. -/
inductive Deed
  /-- The lock is taken. -/
  | acquire (limit : WaitLimit) (channel : Option CancelChannel)
  /-- The lock is given back. -/
  | release
  /-- Something happens beside it. -/
  | act (action : HookAction MemoryStore)
  /-- Something is set to happen beside its store calls. -/
  | hook (hook : Hook MemoryStore)

/-- Whether a deed makes no difference for a queue where there was none. -/
def Deed.Respects (lockPrefix : String) : Deed → Prop
  | .act a => a.Respects lockPrefix
  | .hook h => ∀ a ∈ h.actions, a.Respects lockPrefix
  | _ => True

/-- What a deed comes to. -/
structure Report where
  /-- How a call of the lock ended. -/
  outcome : Option Outcome
  /-- The lock after that. -/
  lock : Lock
  /-- The time after that. -/
  clock : Clock
  /-- The store calls of the lock. -/
  requests : List Request

/-- What a deed does to a session and its lock; `fuel` bounds how often a call may stop. -/
def deed (fuel client : Nat) (s : Session MemoryStore Nat) (l : Lock) :
    Deed → Option Outcome × Lock × Session MemoryStore Nat
  | .acquire limit channel => s.acquire fuel client l limit channel
  | .release => s.release fuel client l
  | .act a => (none, l, s.act a)
  | .hook h => (none, l, s.addHook h)

/-- What some deeds come to, one after another. -/
def reports (fuel client : Nat) (s : Session MemoryStore Nat) (l : Lock) : List Deed → List Report
  | [] => []
  | d :: deeds =>
    let (outcome, l, s) := s.deed fuel client l d
    ⟨outcome, l, s.clock, s.calls.map (·.request)⟩ :: reports fuel client s l deeds

lemma Alike.deed (h : Alike lockPrefix s s') {l : Lock} (hl : l.Minds lockPrefix) (fuel client : Nat)
    {d : Deed} (hd : d.Respects lockPrefix) :
    (s.deed fuel client l d).1 = (s'.deed fuel client l d).1 ∧
      (s.deed fuel client l d).2.1 = (s'.deed fuel client l d).2.1 ∧
      (s.deed fuel client l d).2.1.Minds lockPrefix ∧
      Alike lockPrefix (s.deed fuel client l d).2.2 (s'.deed fuel client l d).2.2 := by
  have hm : Member.Coherent { lock := l } := ⟨fun _ => trivial, False.elim⟩
  cases d with
  | acquire limit channel =>
    have h₀ : Alike lockPrefix { s with channel, calls := [] } { s' with channel, calls := [] } :=
      ⟨h.clock, h.store, h.main, h.hooks, rfl, rfl, h.order, h.respects⟩
    have st : Member.Step { lock := l }
      (.acquire limit (Session.reading { s with channel, calls := [] })) _ := .acquire trivial
    obtain ⟨ho, hlock, hminds, h'⟩ := h₀.run client fuel rfl (st.coherent hm) (st.minds hm hl)
    rw [Session.deed, Session.deed, Session.acquire, Session.acquire, ← h₀.reading]
    exact ⟨ho, hlock, hminds, h'.clock, h'.store, h'.main, h'.hooks, rfl, h'.calls, h'.order, h'.respects⟩
  | release =>
    have h₀ : Alike lockPrefix { s with calls := [] } { s' with calls := [] } :=
      ⟨h.clock, h.store, h.main, h.hooks, h.channel, rfl, h.order, h.respects⟩
    have st : Member.Step { lock := l } (.release s.reading) _ := .release trivial
    exact h₀.run client fuel rfl (st.coherent hm) (st.minds hm hl)
  | act a => exact ⟨rfl, rfl, hl, h.act hd⟩
  | hook k =>
    refine ⟨rfl, rfl, hl, h.clock, h.store, h.main, congrArg (· ++ [k]) h.hooks, h.channel, h.calls,
      h.order, ?_⟩
    intro k' hk'
    rcases List.mem_append.mp hk' with hk' | hk'
    · exact h.respects k' hk'
    · cases List.mem_singleton.mp hk'
      exact hd

lemma Alike.reports (h : Alike lockPrefix s s') {l : Lock} (hl : l.Minds lockPrefix) (fuel client : Nat)
    {deeds : List Deed} (hd : ∀ d ∈ deeds, d.Respects lockPrefix) :
    s.reports fuel client l deeds = s'.reports fuel client l deeds := by
  induction deeds generalizing s s' l with
  | nil => rfl
  | cons d deeds ih =>
    obtain ⟨ho, hlock, hminds, h'⟩ := h.deed hl fuel client (hd d List.mem_cons_self)
    have hrest := ih h' hminds fun d' hd' => hd d' (List.mem_cons_of_mem _ hd')
    have hreq : (s.deed fuel client l d).2.2.calls.map (·.request) =
        (s'.deed fuel client l d).2.2.calls.map (·.request) := by
      have hcalls := congrArg (List.map Prod.fst) h'.calls
      rw [List.map_map, List.map_map] at hcalls
      exact hcalls
    rw [Session.reports, Session.reports]
    rw [hlock] at hrest
    simp only [ho, h'.clock, hreq, hlock, hrest]

end Session

section

variable {lockPrefix : String} {owner : OwnerId} {timings : Timings} {strategy : Strategy} {l : Lock}
  {m : Member} {inputs : List Input}

/-- A lock does not depend on names that are not queued under its prefix. Two histories from any state
that it can be in, told the same but for such names in their listings, ask the store for the same and
leave the same member behind after every step. And two sessions whose stores differ only in such
objects come to the same with everything that is done in them. -/
theorem independent_of_foreign (hl : Lock.create lockPrefix owner timings strategy = .ok l)
    (run : Member.Run { lock := l } inputs m) :
    (∀ allowed allowed' steps steps', Member.History allowed m steps →
      Member.History allowed' m steps' →
      steps.map (·.input.cue lockPrefix) = steps'.map (·.input.cue lockPrefix) →
      steps.map (·.member) = steps'.map (·.member) ∧
        steps.map (·.input.request?) = steps'.map (·.input.request?)) ∧
      ∀ s s' fuel client deeds, Session.Alike lockPrefix s s' →
        (∀ d ∈ deeds, Session.Deed.Respects lockPrefix d) →
        s.reports fuel client m.lock deeds = s'.reports fuel client m.lock deeds := by
  have hm := (run.recorded hl).coherent
  have hminds := run.minds hl
  constructor
  · intro allowed allowed' steps steps' h h' hc
    obtain ⟨hmember, hrequest, -, -⟩ := h.eq_of_cues h' hm hminds hc
    exact ⟨hmember, hrequest⟩
  · intro s s' fuel client deeds h hd
    exact h.reports hminds fuel client hd

end

/-- What a call is told of the queue depends only on the queued names in its listings. -/
lemma Member.cue_poll {lockPrefix : String} {l : Lock} {limit : WaitLimit}
    {listed₁ listed₂ listed₁' listed₂' : List String} {e : Entry} {now late : Instant}
    (h₁ : Entry.queue lockPrefix listed₁ = Entry.queue lockPrefix listed₁')
    (h₂ : Entry.queue lockPrefix listed₂ = Entry.queue lockPrefix listed₂') :
    (poll l limit listed₁ listed₂ e now late).map (·.input.cue lockPrefix) =
      (poll l limit listed₁' listed₂' e now late).map (·.input.cue lockPrefix) := by
  simp only [poll, List.map_cons, List.map_nil, Input.cue, Request.reply, Lock.Phase.request,
    Reply.queue, h₁, h₂]

/-- A malformed name in the listings of a call and an entry of a longer prefix make no difference, and
neither do the objects in the store. -/
theorem independent_of_readme : ∃ l steps steps', ∃ s s' : Session MemoryStore Nat, ∃ deeds,
    Lock.create "p" ⟨"a"⟩ .recommended .counter = .ok l ∧
      Member.Run { lock := l } [] { lock := l } ∧
      Member.History Member.Punctual { lock := l } steps ∧
      Member.History Member.Punctual { lock := l } steps' ∧
      steps.map (·.input.cue "p") = steps'.map (·.input.cue "p") ∧
      steps.map (·.input.listing?) ≠ steps'.map (·.input.listing?) ∧
      steps.map (·.member) = steps'.map (·.member) ∧
      Session.Alike "p" s s' ∧ s.store.objectNames ≠ s'.store.objectNames ∧
      (∀ d ∈ deeds, Session.Deed.Respects "p" d) ∧
      ∀ fuel, s.reports fuel 0 l deeds = s'.reports fuel 0 l deeds := by
  let e : Entry := ⟨"p", 0, ⟨"a"⟩⟩
  let readme := "p_readme.txt"
  let nested := "p_nested_00000000000000000000_b"
  obtain ⟨l, hl, hidle, hcut, he, he'⟩ :
      ∃ l, Lock.create "p" ⟨"a"⟩ .recommended .counter = .ok l ∧ l.state = .idle ∧
        0 + (⟨0, none⟩ : Window).cut 0 l.timings.settling ≤ 5000000000 ∧
        (l.entered [] 0).attempt = some ⟨e, 0⟩ ∧ (l.entered [readme] 0).attempt = some ⟨e, 0⟩ := by
    refine ⟨⟨"p", ⟨"a"⟩, .recommended, { strategy := .counter }, {}, .idle, none⟩, ?_⟩
    decide +kernel
  have hqueue : Entry.queue "p" [] = Entry.queue "p" [readme] ∧
      Entry.queue "p" [e.name] = Entry.queue "p" [nested, e.name, readme] := by
    decide +kernel
  let steps := Member.poll l none [] [e.name] e 0 5000000000
  let steps' := Member.poll l none [readme] [nested, e.name, readme] e 0 5000000000
  let s : Session MemoryStore Nat := { clock := ⟨0, 0⟩, store := {}, main := 0 }
  let s' : Session MemoryStore Nat :=
    { s with store := { objects := [(readme, ⟨ByteArray.empty, 0, 0, none⟩)] } }
  have h : Member.History Member.Punctual { lock := l } steps := Member.history_poll hidle he hcut
  have h' : Member.History Member.Punctual { lock := l } steps' := Member.history_poll hidle he' hcut
  have hc : steps.map (·.input.cue "p") = steps'.map (·.input.cue "p") :=
    Member.cue_poll hqueue.1 hqueue.2
  have hs : Session.Alike "p" s s' := by
    refine ⟨rfl, ?_, rfl, rfl, rfl, rfl, rfl, nofun⟩
    have hq : ¬ Entry.IsQueued "p" readme := by
      decide +kernel
    simp [MemoryStore.only, MemoryStore.queueOf, s, s', hq]
  have hd : ∀ d ∈ [Session.Deed.acquire none none, .release], Session.Deed.Respects "p" d := by
    simp [Session.Deed.Respects]
  obtain ⟨hsteps, hsessions⟩ := independent_of_foreign hl .nil
  refine ⟨l, steps, steps', s, s', _, hl, .nil, h, h', hc, ?_, (hsteps _ _ _ _ h h' hc).1, hs, ?_, hd,
    fun fuel => hsessions s s' fuel 0 _ hs hd⟩
  · simp [steps, steps', Member.poll, Input.listing?]
  · simp [s, s', MemoryStore.objectNames]

end StoreLock
