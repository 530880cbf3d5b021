import StoreLock.Lock.Call
import StoreLock.Proofs.Entry.Order
import StoreLock.Proofs.Sequencer

/-!
# What a listing leaves behind

A listing changes two things a lock knows: the highest sequence it has seen, and the times at which
names were first seen. Nothing else moves (`observe_frame`). From the first follows that a sequence
drawn behind a listing exceeds every listed one (`lt_next_of_mem_listed`), from the second that a
name is reclaimed only if it has been on record for longer than the timeout (`mem_stale`).

The lemmas about `observe` fold over the listed names with `List.foldlRecOn`: what holds of the lock
that has forgotten the missing names, and survives noting one listed name, holds in the end.
-/

namespace StoreLock

namespace Sightings

/-- Noting a name adds at most that name, at the time of the listing. -/
lemma mem_observe {s : Sightings} {name n : String} {now f : Instant}
    (h : (n, f) ∈ (s.observe name now).2.firstSeen) :
    (n, f) ∈ s.firstSeen ∨ (n = name ∧ f = now) := by
  rw [observe] at h
  split at h
  case h_1 => exact .inl h
  case h_2 =>
    rcases List.mem_cons.mp h with e | h
    · cases e
      exact .inr ⟨rfl, rfl⟩
    · exact .inl h

lemma mem_retain {s : Sightings} {listed : List String} {n : String} {f : Instant} :
    (n, f) ∈ (s.retain listed).firstSeen ↔ (n, f) ∈ s.firstSeen ∧ n ∈ listed := by
  simp [retain]

lemma mem_forget {s : Sightings} {name n : String} {f : Instant} :
    (n, f) ∈ (s.forget name).firstSeen ↔ (n, f) ∈ s.firstSeen ∧ n ≠ name := by
  simp [forget]

/-- A stale name is on record since more than the timeout ago. -/
lemma mem_of_isStale {s : Sightings} {n : String} {now : Instant} {timeout : Duration}
    (h : s.isStale n now timeout = true) :
    ∃ f, (n, f) ∈ s.firstSeen ∧ f + timeout < now := by
  rw [isStale, age?] at h
  cases hl : s.firstSeen.lookup n with
  | none => simp [hl] at h
  | some f =>
    obtain ⟨before, after, e, -⟩ := List.lookup_eq_some_iff.mp hl
    refine ⟨f, ?_, ?_⟩
    · rw [e]
      simp
    · simp only [hl, Option.map_some, decide_eq_true_eq] at h
      lia

end Sightings

namespace Lock

variable {l : Lock} {listed : List String} {now : Instant}

/-- A lock is made only for a prefix that is not empty. -/
lemma eq_of_create {lockPrefix : String} {owner : OwnerId} {timings : Timings} {strategy : Strategy} {lock : Lock}
    (h : Lock.create lockPrefix owner timings strategy = .ok lock) :
    lock = { lockPrefix, owner, timings, sequencer := { strategy } } ∧ lockPrefix ≠ "" ∧
      timings.check = .ok () := by
  rw [Lock.create] at h
  split at h
  case h_1 => cases h
  case h_2 hp =>
    split at h
    case h_1 => cases h
    case h_2 ht =>
      cases h
      refine ⟨rfl, ?_, ht⟩
      rintro rfl
      cases hp

/-- A name is queued if it reads as an entry of the lock's prefix. -/
lemma queued?_eq_some {n : String} {e : Entry} :
    l.queued? n = some e ↔ Entry.read n = .ok e ∧ e.lockPrefix = l.lockPrefix := by
  rw [queued?]
  cases hr : Entry.read n with
  | error => simp
  | ok e' =>
    by_cases hp : e'.lockPrefix = l.lockPrefix
    · simp only [hp, if_true, Option.some.injEq, Except.ok.injEq]
      constructor
      · rintro rfl
        exact ⟨rfl, hp⟩
      · exact fun h => h.1
    · simp only [hp, if_false, Except.ok.injEq, reduceCtorEq, false_iff, not_and]
      rintro rfl
      exact hp

lemma note_frame (l : Lock) (now : Instant) (n : String) :
    l.note now n =
      { l with sequencer := (l.note now n).sequencer, sightings := (l.note now n).sightings } := by
  rw [note]
  cases l.queued? n <;> rfl

/-- A listing moves nothing but the sequences and the sightings. -/
lemma observe_frame (l : Lock) (listed : List String) (now : Instant) :
    l.observe listed now =
      { l with
        sequencer := (l.observe listed now).sequencer
        sightings := (l.observe listed now).sightings } := by
  rw [observe]
  refine List.foldlRecOn listed (note · now)
    (motive := fun l' => l' = { l with sequencer := l'.sequencer, sightings := l'.sightings }) ?_ ?_
  · rfl
  · intro l' ih n _
    rw [note_frame l' now n, ih]

@[simp] lemma observe_lockPrefix : (l.observe listed now).lockPrefix = l.lockPrefix := by
  rw [observe_frame]

@[simp] lemma observe_owner : (l.observe listed now).owner = l.owner := by
  rw [observe_frame]

@[simp] lemma observe_timings : (l.observe listed now).timings = l.timings := by
  rw [observe_frame]

@[simp] lemma observe_state : (l.observe listed now).state = l.state := by
  rw [observe_frame]

@[simp] lemma observe_attempt : (l.observe listed now).attempt = l.attempt := by
  rw [observe_frame]

@[simp] lemma observe_queued? {n : String} : (l.observe listed now).queued? n = l.queued? n := by
  rw [queued?, queued?, observe_lockPrefix]

@[simp] lemma observe_last : (l.observe listed now).sequencer.last = l.sequencer.last := by
  rw [observe]
  refine List.foldlRecOn listed (note · now)
    (motive := fun l' => l'.sequencer.last = l.sequencer.last) ?_ ?_
  · rfl
  · intro l' ih n _
    simp only [note]
    cases l'.queued? n with
    | none => exact ih
    | some e => exact ih

/-- What is on record after a listing is listed; it was on record before, or it is queued and seen
for the first time. -/
lemma mem_sightings_observe {n : String} {f : Instant}
    (h : (n, f) ∈ (l.observe listed now).sightings.firstSeen) :
    n ∈ listed ∧ ((n, f) ∈ l.sightings.firstSeen ∨ f = now) := by
  rw [observe] at h
  revert h
  refine List.foldlRecOn listed (note · now)
    (motive := fun l' => (n, f) ∈ l'.sightings.firstSeen →
      n ∈ listed ∧ ((n, f) ∈ l.sightings.firstSeen ∨ f = now)) ?_ ?_
  · intro h
    have h' := Sightings.mem_retain.mp h
    exact ⟨h'.2, .inl h'.1⟩
  · intro l' ih name hname h
    simp only [note] at h
    cases hq : l'.queued? name with
    | none =>
      rw [hq] at h
      exact ih h
    | some e =>
      rw [hq] at h
      rcases Sightings.mem_observe h with h | ⟨rfl, rfl⟩
      · exact ih h
      · exact ⟨hname, .inr rfl⟩

/-- Noting more names does not lower the highest sequence seen. -/
lemma le_highestSeen_foldl (names : List String) (now : Instant) {l : Lock} {old : UInt64}
    (h : l.sequencer.highestSeen = some old) :
    ∃ high, (names.foldl (note · now) l).sequencer.highestSeen = some high ∧ old ≤ high := by
  refine List.foldlRecOn names (note · now)
    (motive := fun l' => ∃ high, l'.sequencer.highestSeen = some high ∧ old ≤ high) ?_ ?_
  · exact ⟨old, h, UInt64.le_refl old⟩
  · rintro l' ⟨high, hh, hle⟩ n _
    simp only [note]
    cases l'.queued? n with
    | none => exact ⟨high, hh, hle⟩
    | some e =>
      obtain ⟨high', hh', -, hold⟩ := Sequencer.le_observe l'.sequencer e.sequence
      exact ⟨high', hh', UInt64.le_trans hle (hold high hh)⟩

/-- The highest sequence seen after a listing is no smaller than any queued and listed one. -/
lemma le_highestSeen_of_mem (now : Instant) {n : String} {e : Entry} (hn : n ∈ listed) (he : l.queued? n = some e) :
    ∃ high, (l.observe listed now).sequencer.highestSeen = some high ∧ e.sequence ≤ high := by
  rw [observe]
  -- By induction on the listed names, for every lock under which the name is queued: those before
  -- the name may be noted in any way, and those behind it do not lower the sequence again.
  generalize hl : ({ l with sightings := l.sightings.retain listed } : Lock) = l'
  replace he : l'.queued? n = some e := by
    rw [← hl]
    exact he
  clear hl
  revert hn
  generalize listed = names
  intro hn
  induction names generalizing l' with
  | nil => cases hn
  | cons m names ih =>
    rw [List.foldl_cons]
    rcases List.mem_cons.mp hn with rfl | hn
    · obtain ⟨high, hh, hle, -⟩ := Sequencer.le_observe l'.sequencer e.sequence
      have hnote : (l'.note now n).sequencer.highestSeen = some high := by
        simp only [note, he]
        exact hh
      obtain ⟨high', hh', hle'⟩ := le_highestSeen_foldl names now hnote
      exact ⟨high', hh', UInt64.le_trans hle hle'⟩
    · apply ih _ _ hn
      rw [note_frame]
      exact he

/-- A sequence drawn behind a listing exceeds every queued and listed one that is not the largest. -/
theorem lt_next_of_mem_listed {n : String} {e : Entry} (unixMillis : UInt64) (hn : n ∈ listed)
    (he : l.queued? n = some e) (hm : e.sequence ≠ Sequencer.most) :
    e.sequence < ((l.observe listed now).sequencer.next unixMillis).1 := by
  obtain ⟨high, hh, hle⟩ := le_highestSeen_of_mem now hn he
  exact Sequencer.lt_next_of_le_highestSeen unixMillis hh hle hm

/-- A stale name is queued, is not the own one, and is on record since more than the timeout ago. -/
theorem mem_stale {own : Entry} {n : String} (h : n ∈ l.stale own listed now) :
    n ∈ listed ∧ (∃ e, l.queued? n = some e) ∧ n ≠ own.name ∧
      ∃ f, (n, f) ∈ l.sightings.firstSeen ∧ f + l.timings.timeout < now := by
  rw [stale, List.mem_filter] at h
  obtain ⟨hn, hr⟩ := h
  simp only [isReclaimable, Bool.and_eq_true, bne_iff_ne, ne_eq] at hr
  obtain ⟨⟨hq, hne⟩, hs⟩ := hr
  exact ⟨hn, Option.isSome_iff_exists.mp hq, hne, Sightings.mem_of_isStale hs⟩

/-- An attempt whose entry is first comes no later than any listed entry that is not reclaimed. -/
theorem le_of_standing_first {a : Attempt} {n : String} {e : Entry}
    (h : l.standing a listed now = .first) (hn : n ∈ listed) (he : l.queued? n = some e)
    (hs : l.isReclaimable a.entry now n = false) : a.entry.le e = true := by
  rw [standing] at h
  split at h
  case isTrue =>
    split at h
    case isTrue hall =>
      refine List.all_eq_true.mp hall e ?_
      exact List.mem_filterMap.mpr ⟨n, List.mem_filter.mpr ⟨hn, by simp [hs]⟩, he⟩
    case isFalse => cases h
  case isFalse => split at h <;> cases h

end Lock

end StoreLock
