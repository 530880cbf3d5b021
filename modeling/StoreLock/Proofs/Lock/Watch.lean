import StoreLock.Proofs.Lock.Ranking

/-!
# A queue under watch

A lock that has created its entry, and whose listings have shown the same others in its queue since one
time (`Lock.Watches`). The age of that time decides what becomes of them. Until the timeout has passed
nothing is stale (`Watches.stale_eq_nil`), and as soon as it has, all others are, so the own entry comes
first (`Watches.standing_eq_first_of_lt`). The own entry itself is never stale, and it is never missing.
-/

namespace StoreLock.Lock

/-- Whether the own entry is listed and reads back, and all other names of the queue that are listed are
on record since one time. -/
structure Watches (l : Lock) (a : Attempt) (listed : List String) (began : Instant) : Prop where
  attempt : l.attempt = some a
  reads : l.queued? a.entry.name = some a.entry
  own : a.entry.name ∈ listed
  others : ∀ n ∈ listed, Entry.IsQueued l.lockPrefix n → n ≠ a.entry.name →
    l.sightings.since? n = some began

variable {l : Lock} {a : Attempt} {listed : List String} {began now : Instant} {n : String}
  {w : Window} {r : Reading} {d : Duration}

lemma observe_listing : (l.observe listed now).listing = l.listing := by
  rw [listing, listing, observe_lockPrefix]

lemma pause_eq (hr : r.cancelled = false) : l.pause w d r = (l, .pause (w.cut r.now d) ⟨w⟩) := by
  rw [pause, hr]
  rfl

lemma judge_eq (ha : l.attempt = some a) : l.judge w listed r =
    (l.observe listed r.now).reclaim w ((l.observe listed r.now).standing a listed r.now)
      ((l.observe listed r.now).stale a.entry listed r.now) r := by
  rw [judge, ha]

namespace Watches

/-- What is shown once more keeps the time it is on record since. -/
lemma observe (h : l.Watches a listed began) (now : Instant) :
    (l.observe listed now).Watches a listed began where
  attempt := by rw [observe_attempt, h.attempt]
  reads := by rw [observe_queued?, h.reads]
  own := h.own
  others n hn hq hne := by
    rw [observe_lockPrefix] at hq
    rw [since?_observe hq, if_pos hn, h.others n hn hq hne, Option.getD_some]

lemma isReclaimable_iff (h : l.Watches a listed began) (hn : n ∈ listed) :
    l.isReclaimable a.entry now n = true ↔
      Entry.IsQueued l.lockPrefix n ∧ n ≠ a.entry.name ∧ began + l.timings.timeout < now := by
  rw [isReclaimable, Bool.and_eq_true, Bool.and_eq_true, bne_iff_ne, Option.isSome_iff_exists,
    exists_queued?_iff, Sightings.isStale_iff, and_assoc]
  constructor
  · intro hr
    obtain ⟨hq, hne, first, hf, hlt⟩ := hr
    rw [h.others n hn hq hne] at hf
    cases hf
    exact ⟨hq, hne, hlt⟩
  · intro hr
    obtain ⟨hq, hne, hlt⟩ := hr
    exact ⟨hq, hne, began, h.others n hn hq hne, hlt⟩

lemma mem_eligible (h : l.Watches a listed began) :
    a.entry ∈ l.eligible a.entry listed now := by
  apply Lock.mem_eligible.mpr
  refine ⟨a.entry.name, h.own, h.reads, ?_⟩
  rw [← Bool.not_eq_true, h.isReclaimable_iff h.own]
  exact fun hr => hr.2.1 rfl

lemma standing_ne_reclaimed (h : l.Watches a listed began) : l.standing a listed now ≠ .reclaimed := by
  rw [standing, if_pos h.mem_eligible]
  split_ifs
  · simp
  · simp

lemma stale_eq_nil (h : l.Watches a listed began) (ht : now ≤ began + l.timings.timeout) :
    l.stale a.entry listed now = [] := by
  apply List.filter_eq_nil_iff.mpr
  intro n hn hr
  have hlt := ((h.isReclaimable_iff hn).mp hr).2.2
  exact absurd ht (Nat.not_le_of_lt hlt)

/-- The own entry comes first if nothing else counts. -/
lemma standing_eq_first (h : l.Watches a listed began) (hkept : ∀ n ∈ listed,
    Entry.IsQueued l.lockPrefix n → l.isReclaimable a.entry now n = false → n = a.entry.name) :
    l.standing a listed now = .first := by
  rw [standing_eq_first_iff]
  refine ⟨h.mem_eligible, ?_⟩
  intro e he
  obtain ⟨n, hn, hq, hr⟩ := Lock.mem_eligible.mp he
  rw [hkept n hn (exists_queued?_iff.mp ⟨e, hq⟩) hr, h.reads] at hq
  cases hq
  exact Entry.le_refl a.entry

/-- When the timeout has passed, all others are stale. -/
lemma standing_eq_first_of_lt (h : l.Watches a listed began) (ht : began + l.timings.timeout < now) :
    l.standing a listed now = .first := by
  apply h.standing_eq_first
  intro n hn hq hr
  by_contra hne
  rw [← Bool.not_eq_true, h.isReclaimable_iff hn] at hr
  exact hr ⟨hq, hne, ht⟩

end Watches

/-! ## Joining a queue -/

/-- A lock that has drawn a sequence behind a listing. -/
def drawn (l : Lock) (listed : List String) (now : Instant) (sequencer : Sequencer) : Lock :=
  { l.observe listed now with sequencer }

/-- A lock that has created its entry with this sequence then. -/
def joined (l : Lock) (listed : List String) (now : Instant) (sequence : UInt64)
    (sequencer : Sequencer) : Lock :=
  { l.drawn listed now sequencer with attempt := some ⟨⟨l.lockPrefix, sequence, l.owner⟩, now⟩ }

variable {sequence : UInt64} {sequencer : Sequencer}

lemma joined_lockPrefix : (l.joined listed now sequence sequencer).lockPrefix = l.lockPrefix :=
  observe_lockPrefix

lemma joined_listing : (l.joined listed now sequence sequencer).listing = l.listing :=
  observe_listing

lemma drawn_timings : (l.drawn listed now sequencer).timings = l.timings :=
  observe_timings

lemma joined_timings : (l.joined listed now sequence sequencer).timings = l.timings :=
  observe_timings

lemma acquire_eq {limit : WaitLimit} (hl : l.state = .idle) (hr : r.cancelled = false) :
    l.acquire limit r = ({ l with state := .acquiring }, .request (.seeding ⟨r.now, limit⟩)) := by
  rw [acquire, hl, start, hr]
  rfl

/-- An entry is asked for with the prefix and the owner of the lock. -/
lemma register_eq (l : Lock) (w : Window) (listed : List String) (r : Reading) :
    ∃ sequence sequencer contents, l.register w listed r = (l.drawn listed r.now sequencer,
      .request (.creating w ⟨l.lockPrefix, sequence, l.owner⟩ contents)) := by
  obtain ⟨⟨sequence, sequencer⟩, hn⟩ : ∃ p, (l.observe listed r.now).sequencer.next r.unixMillis = p :=
    ⟨_, rfl⟩
  refine ⟨sequence, sequencer, (⟨l.owner.text, sequence, r.unixMillis⟩ : Marker).contents, ?_⟩
  simp only [register, hn, drawn, observe_lockPrefix, observe_owner]

/-- A lock that has seen nothing before watches the queue from the time it joins it, if its entry is
listed then and no others are listed but those it came behind. -/
lemma watches_joined {shown : List String} (hs : l.sightings = {})
    (he : (⟨l.lockPrefix, sequence, l.owner⟩ : Entry).Proper)
    (hown : (⟨l.lockPrefix, sequence, l.owner⟩ : Entry).name ∈ shown)
    (hothers : ∀ n ∈ shown, n ≠ (⟨l.lockPrefix, sequence, l.owner⟩ : Entry).name → n ∈ listed) :
    (l.joined listed now sequence sequencer).Watches ⟨⟨l.lockPrefix, sequence, l.owner⟩, now⟩ shown
      now where
  attempt := rfl
  reads := by
    rw [queued?_eq_some, joined_lockPrefix]
    exact ⟨Entry.read_name he, rfl⟩
  own := hown
  others n hn hq hne := by
    rw [joined_lockPrefix] at hq
    show (l.observe listed now).sightings.since? n = some now
    rw [since?_observe hq, if_pos (hothers n hn hne), hs]
    rfl

end StoreLock.Lock
