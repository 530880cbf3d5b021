import StoreLock.Proofs.Lock.Watch
import StoreLock.Proofs.Session.Moves
import StoreLock.Proofs.Store.Prompt

/-!
# A lock that is alone

A session in which nothing happens but what one lock does (`Session.Lone`): no other acts on the store,
which serves every call at once, and nobody asks the call to end. What the calls of the store come to in
it is known, so the stretches of a call can be followed to where they lead: creating the own entry
(`Lone.joins`), ranking it after a pause (`Lone.ranks`) and deleting what is stale (`Lone.reclaims`).
-/

namespace StoreLock

namespace Window

variable {w : Window} {now : Instant} {d : Duration}

lemma cut_eq (h : ∀ most, w.limit = some most → now - w.start + d ≤ most) : w.cut now d = d := by
  rw [cut, WaitLimit.cut]
  cases hl : w.limit with
  | none => rfl
  | some most =>
    apply Nat.min_eq_right
    exact Nat.le_sub_of_add_le' (h most hl)

lemma isOver_eq_false (h : ∀ most, w.limit = some most → now - w.start < most) :
    w.isOver now = false := by
  rw [isOver]
  cases hl : w.limit with
  | none => rfl
  | some most => exact decide_eq_false (Nat.not_le_of_lt (h most hl))

end Window

namespace MemoryStore

variable {s s' : MemoryStore} {n : String} {o : ObjectRecord} {e : Entry}

lemma shown_congr {start : String} (h : s'.live = s.live) : s'.shown start = s.shown start := by
  rw [shown, shown, h]

/-- An entry that exists is shown to its queue. -/
lemma mem_shown_of_read (h : (n, o) ∈ s.live) (hr : Entry.read n = .ok e) :
    n ∈ s.shown (Entry.listing e.lockPrefix) := by
  apply mem_shown.mpr
  refine ⟨⟨o, h⟩, ?_⟩
  rw [← (Entry.name_of_read hr).1]
  exact e.startsWith_listing

/-- An entry that has been created is shown to its queue beside the others. -/
lemma mem_shown_of_insert (h : s'.live = insert s.live e.name o) :
    n ∈ s'.shown (Entry.listing e.lockPrefix) ↔
      n = e.name ∨ n ≠ e.name ∧ n ∈ s.shown (Entry.listing e.lockPrefix) := by
  rw [mem_shown, mem_shown, h]
  simp only [mem_insert]
  constructor
  · intro hn
    obtain ⟨⟨o', hown | hother⟩, hs⟩ := hn
    · exact .inl hown.1
    · exact .inr ⟨hother.1, ⟨o', hother.2⟩, hs⟩
  · intro hn
    rcases hn with hown | hother
    · rw [hown]
      exact ⟨⟨o, .inl ⟨rfl, rfl⟩⟩, e.startsWith_listing⟩
    · obtain ⟨hne, ⟨o', ho'⟩, hs⟩ := hother
      exact ⟨⟨o', .inr ⟨hne, ho'⟩⟩, hs⟩

end MemoryStore

namespace Session

/-- Whether nothing happens in a session but what one lock does. -/
structure Lone (s : Session MemoryStore Nat) : Prop where
  hooks : s.hooks = []
  uncancelled : s.reading.cancelled = false
  prompt : s.store.Prompt

namespace Lone

variable {s : Session MemoryStore Nat} {l : Lock} {w : Window} {d : Duration}

lemma sleep (h : s.Lone) (d : Duration) :
    ∃ s', s.sleep d = (.elapsed, s') ∧ s'.Lone ∧ s'.clock.now = s.clock.now + d ∧ s'.store = s.store := by
  obtain ⟨channel, hs, hvalue⟩ := sleep_eq h.hooks d
  refine ⟨_, hs, ⟨h.hooks, ?_, h.prompt⟩, rfl, rfl⟩
  rw [← h.uncancelled, reading, reading, ← hvalue]

lemma call (h : s.Lone) (client : Nat) (listing : String) (request : Request)
    {answer : request.Answer} {store : MemoryStore} (hs : store.Prompt)
    (hp : ObjectStore.perform s.store client s.clock.now listing request = (answer, store)) :
    ∃ s', s.call client listing request = (answer, s') ∧ s'.Lone ∧ s'.clock = s.clock ∧
      s'.store = store := by
  refine ⟨{ s with store, calls := s.calls ++ [⟨listing, request, answer⟩] }, ?_,
    ⟨h.hooks, h.uncancelled, hs⟩, rfl, rfl⟩
  rw [Session.call, fire_eq h.hooks, hp]
  simp only [fire_eq, h.hooks]

lemma list (h : s.Lone) (client : Nat) (listing : String) :
    ∃ s', s.call client listing .list = (.ok (s.store.shown listing), s') ∧ s'.Lone ∧
      s'.clock = s.clock ∧ s'.store.live = s.store.live := by
  obtain ⟨store, hp, hs, hlive⟩ := h.prompt.list client s.clock.now listing
  obtain ⟨s', hc, hl, ht, rfl⟩ := h.call client listing .list hs hp
  exact ⟨s', hc, hl, ht, hlive⟩

lemma create (h : s.Lone) (client : Nat) (listing name : String) (contents : ByteArray) :
    ∃ s', s.call client listing (.create name contents) = (.ok (), s') ∧ s'.Lone ∧
      s'.clock = s.clock ∧ ∃ o, s'.store.live = MemoryStore.insert s.store.live name o := by
  obtain ⟨store, hp, hs, hlive⟩ := h.prompt.create client s.clock.now name contents
  obtain ⟨s', hc, hl, ht, rfl⟩ := h.call client listing (.create name contents) hs hp
  exact ⟨s', hc, hl, ht, _, hlive⟩

lemma delete (h : s.Lone) (client : Nat) (listing name : String) :
    ∃ s', s.call client listing (.delete name) = (.ok (), s') ∧ s'.Lone ∧
      s'.clock = s.clock ∧ s'.store.live = s.store.live.filter fun p => p.1 ≠ name := by
  obtain ⟨store, hp, hs, hlive⟩ := h.prompt.delete client s.clock.now name
  obtain ⟨s', hc, hl, ht, rfl⟩ := h.call client listing (.delete name) hs hp
  exact ⟨s', hc, hl, ht, hlive⟩

/-- A call creates its entry behind what is listed, and pauses. -/
lemma joins (h : s.Lone) (client : Nat) (l : Lock) (w : Window) :
    ∃ sequence sequencer s', Goes client 2 (l, .request (.seeding w)) s
        (l.joined (s.store.shown l.listing) s.clock.now sequence sequencer,
          .pause (w.cut s.clock.now l.timings.settling) ⟨w⟩) s' ∧
      s'.Lone ∧ s'.clock = s.clock ∧ ∃ o, s'.store.live =
        MemoryStore.insert s.store.live (⟨l.lockPrefix, sequence, l.owner⟩ : Entry).name o := by
  obtain ⟨s₁, hlist, h₁, ht₁, hlive₁⟩ := h.list client l.listing
  obtain ⟨sequence, sequencer, contents, hreg⟩ :=
    l.register_eq w (s.store.shown l.listing) s₁.reading
  obtain ⟨s₂, hcreate, h₂, ht₂, o, hlive₂⟩ :=
    h₁.create client (l.drawn (s.store.shown l.listing) s₁.reading.now sequencer).listing
      (⟨l.lockPrefix, sequence, l.owner⟩ : Entry).name contents
  have htimings : l.timings = (l.drawn (s.store.shown l.listing) s.clock.now sequencer).timings :=
    Lock.drawn_timings.symm
  have hnow₁ : s₁.reading.now = s.clock.now := congrArg Clock.now ht₁
  have hnow₂ : s₂.reading.now = s.clock.now := congrArg Clock.now (ht₂.trans ht₁)
  refine ⟨sequence, sequencer, s₂, ?_, h₂, ht₂.trans ht₁, o, ?_⟩
  · apply Goes.step (.request hlist)
    show Goes client 1 (l.register w _ _) s₁ _ s₂
    rw [hreg]
    apply Goes.step (.request hcreate)
    show Goes client 0 (Lock.pause _ w _ _) s₂ _ s₂
    rw [Lock.pause_eq h₂.uncancelled, hnow₂, hnow₁, htimings]
    exact .refl
  · rw [hlive₂, hlive₁]

/-- A new lock creates its entry behind what is listed, and watches the queue from then on while it lets
the entry settle. -/
lemma enters {lockPrefix : String} {owner : OwnerId} {t : Timings} {strategy : Strategy}
    (hl : Lock.create lockPrefix owner t strategy = .ok l) (ho : OwnerId.accepts owner.text = true)
    (h : s.Lone) (limit : WaitLimit) (hlimit : ∀ most, limit = some most → t.settling ≤ most)
    (client : Nat) :
    ∃ l' a s', Goes client 2 (l.acquire limit s.reading) s
        (l', .pause t.settling ⟨⟨s.clock.now, limit⟩⟩) s' ∧
      s'.Lone ∧ s'.clock = s.clock ∧ (l'.lockPrefix = lockPrefix ∧ l'.timings = t) ∧
      (a.entry.lockPrefix = lockPrefix ∧ a.entry.owner = owner) ∧
      l'.Watches a (s'.store.shown l'.listing) s.clock.now ∧
      ∃ o, s'.store.live = MemoryStore.insert s.store.live a.entry.name o := by
  obtain ⟨hl, hne, -⟩ := Lock.eq_of_create hl
  have hacq : l.acquire limit s.reading =
      ({ l with state := .acquiring }, .request (.seeding ⟨s.clock.now, limit⟩)) := by
    apply Lock.acquire_eq _ h.uncancelled
    rw [hl]
  have hcut : (⟨s.clock.now, limit⟩ : Window).cut s.clock.now t.settling = t.settling := by
    apply Window.cut_eq
    intro most hm
    rw [Nat.sub_self, Nat.zero_add]
    exact hlimit most hm
  obtain ⟨sequence, sequencer, s', hgoes, h', ht, o, hlive⟩ :=
    h.joins client { l with state := .acquiring } ⟨s.clock.now, limit⟩
  rw [← hacq] at hgoes
  subst hl
  rw [hcut] at hgoes
  refine ⟨_, ⟨⟨lockPrefix, sequence, owner⟩, s.clock.now⟩, s', hgoes, h', ht,
    ⟨Lock.joined_lockPrefix, Lock.joined_timings⟩, ⟨rfl, rfl⟩, ?_, o, hlive⟩
  rw [Lock.joined_listing]
  apply Lock.watches_joined rfl ⟨hne, ho⟩
  · exact (MemoryStore.mem_shown_of_insert hlive).mpr (.inl rfl)
  · intro n hn hother
    exact (((MemoryStore.mem_shown_of_insert hlive).mp hn).resolve_left hother).2

/-- A call that pauses ranks its entry in what is listed then. -/
lemma ranks (h : s.Lone) (client : Nat) {a : Attempt} (ha : l.attempt = some a) (d : Duration)
    (w : Window) :
    ∃ s', Goes client 2 (l, .pause d ⟨w⟩) s (l.judge w (s.store.shown l.listing) s'.reading) s' ∧
      s'.Lone ∧ s'.clock.now = s.clock.now + d ∧ s'.store.live = s.store.live := by
  obtain ⟨s₁, hsleep, h₁, ht₁, hstore₁⟩ := h.sleep d
  obtain ⟨s', hlist, h', ht, hlive⟩ := h₁.list client l.listing
  rw [hstore₁] at hlist hlive
  refine ⟨s', ?_, h', (congrArg Clock.now ht).trans ht₁, hlive⟩
  apply Goes.step (.pause hsleep)
  rw [Lock.wake, ha]
  exact .step (.request hlist) .refl

/-- A call deletes all stale names before it goes on. -/
lemma reclaims (h : s.Lone) (client : Nat) (l : Lock) (w : Window) (st : Lock.Standing)
    (names : List String) :
    ∃ s', Goes client names.length (l.reclaim w st names s.reading) s (l.conclude w st s'.reading) s' ∧
      s'.Lone ∧ s'.clock = s.clock ∧
      ∀ p, p ∈ s'.store.live ↔ p ∈ s.store.live ∧ p.1 ∉ names := by
  induction names generalizing s with
  | nil => exact ⟨s, .refl, h, rfl, by simp⟩
  | cons name names ih =>
    obtain ⟨s₁, hdelete, h₁, ht₁, hlive₁⟩ := h.delete client l.listing name
    obtain ⟨s₂, hgoes, h₂, ht₂, hlive₂⟩ := ih h₁
    refine ⟨s₂, .step (.request hdelete) hgoes, h₂, ht₂.trans ht₁, ?_⟩
    intro p
    rw [hlive₂, hlive₁, List.mem_filter, decide_eq_true_eq, List.mem_cons, not_or, and_assoc]

end Lone

end Session

end StoreLock
