import StoreLock.Proofs.Entry.NameOrder
import StoreLock.Proofs.Lock.History
import StoreLock.Proofs.Sightings

/-!
# What the sightings tell of a history

A queued name is on record since the first of the listings that have shown it without a break, where
a break is a listing without the name, or that the lock gave up its own entry of this name. So the
record of a lock and the history of its listings tell the same of a name: it is on record if and only
if it stands (`Stands`), and it is stale if and only if it has stood for longer than the timeout
(`Tracked.isStale_iff`).
-/

namespace StoreLock

namespace Lock

variable {l : Lock} {n : String} {listed : List String} {now : Instant}

lemma exists_queued?_iff : (∃ e, l.queued? n = some e) ↔ Entry.IsQueued l.lockPrefix n := by
  simp only [queued?_eq_some, Entry.IsQueued]

lemma since?_note (h : Entry.IsQueued l.lockPrefix n) (name : String) :
    (l.note now name).sightings.since? n =
      if n = name then some ((l.sightings.since? n).getD now) else l.sightings.since? n := by
  rw [note]
  cases hq : l.queued? name with
  | none =>
    have hne : n ≠ name := by
      rintro rfl
      obtain ⟨e, he⟩ := exists_queued?_iff.mpr h
      rw [hq] at he
      cases he
    simp [hne]
  | some e => exact Sightings.since?_observe

/-- Listed names are noted one after another; for each of them only the first time counts. -/
lemma since?_foldl_note (names : List String) (h : Entry.IsQueued l.lockPrefix n) :
    (names.foldl (note · now) l).sightings.since? n =
      if n ∈ names then some ((l.sightings.since? n).getD now) else l.sightings.since? n := by
  induction names generalizing l with
  | nil => simp
  | cons name names ih =>
    have hp : (l.note now name).lockPrefix = l.lockPrefix := by rw [note_frame]
    rw [List.foldl_cons, ih (by rw [hp]; exact h), since?_note h]
    by_cases hn : n = name <;> by_cases hm : n ∈ names <;> simp [hn, hm]

/-- A queued name is on record after a listing if it is listed: since it was before, or since now. -/
lemma since?_observe (h : Entry.IsQueued l.lockPrefix n) :
    (l.observe listed now).sightings.since? n =
      if n ∈ listed then some ((l.sightings.since? n).getD now) else none := by
  have h' : Entry.IsQueued { l with sightings := l.sightings.retain listed }.lockPrefix n := h
  rw [observe, since?_foldl_note _ h', Sightings.since?_retain]
  split_ifs <;> rfl

/-- What an input tells of a queued name: a listing keeps it on record, or puts it there, or drops
it. -/
lemma since?_told (h : Entry.IsQueued l.lockPrefix n) (input : Input) :
    (l.told input).sightings.since? n =
      match input.listing? with
      | none => l.sightings.since? n
      | some listed =>
        if n ∈ listed then some ((l.sightings.since? n).getD input.reading.now) else none := by
  rcases told_cases l input with ⟨listed, hi, ht⟩ | ⟨hi, ht⟩
  · rw [hi, ht, since?_observe h]
  · rw [hi, ht]

end Lock

/-- Whether a name has stood in every listing since one received at `first`, and the lock has not
given up its own entry of this name since. -/
inductive Stands (n : String) (first : Instant) : List Taken → Prop where
  | listed {t steps listed} :
    t.input.listing? = some listed →
    n ∈ listed →
    t.time = first →
    t.member.leaving? ≠ some n →
    Stands n first (t :: steps)
  | on {t steps} :
    Stands n first steps →
    (∀ listed, t.input.listing? = some listed → n ∈ listed) →
    t.member.leaving? ≠ some n →
    Stands n first (t :: steps)

/-- Whether a name has stood for longer than the timeout at `now`. -/
def Stale (timeout : Duration) (now : Instant) (steps : List Taken) (n : String) : Prop :=
  ∃ first, Stands n first steps ∧ first + timeout < now

namespace Member

variable {m m' : Member} {n : String} {first : Instant} {steps : List Taken} {lockPrefix : String}

/-- A name is off the record when the lock gives up its own entry of this name. -/
lemma Hands.since? {l : Lock} (h : Hands l m) (n : String) :
    m.lock.sightings.since? n = if m.leaving? = some n then none else l.sightings.since? n := by
  cases h with
  | keeps _ hs hl =>
    rw [hs, hl]
    rfl
  | leaves _ _ hs hl =>
    rw [hs, hl, Sightings.since?_forget]
    simp only [Option.some.injEq, eq_comm]

lemma History.le_since (h : History Steady m steps) (hs : Stands n first steps) :
    first ≤ (m.after steps).since := by
  induction h with
  | nil => cases hs
  | @cons steps t _ ha st ih =>
    rw [after_cons, st.since]
    cases hs with
    | listed _ _ ht _ => exact ht.ge
    | on hs _ _ => exact Nat.le_trans (ih hs) ha

/-- What a lock has on record is what stands in its history. -/
structure Tracked (lockPrefix : String) (steps : List Taken) (m : Member) : Prop where
  coherent : m.Coherent
  prefix_eq : m.lock.lockPrefix = lockPrefix
  stands : ∀ n first, Entry.IsQueued lockPrefix n →
    m.lock.sightings.since? n = some first → Stands n first steps
  seen : ∀ n first, Entry.IsQueued lockPrefix n →
    Stands n first steps → ∃ f ≤ first, m.lock.sightings.since? n = some f

namespace Tracked

lemma step {t : Taken} (h : Tracked lockPrefix steps m) (ht : Steady m t.input)
    (st : m.Step t.input t.member) (hle : ∀ n first, Stands n first steps → first ≤ m.since) :
    Tracked lockPrefix (t :: steps) t.member := by
  have ad := st.advance h.coherent
  have record (n : String) (hn : Entry.IsQueued lockPrefix n) :
      t.member.lock.sightings.since? n = if t.member.leaving? = some n then none else
        match t.input.listing? with
        | none => m.lock.sightings.since? n
        | some listed =>
          if n ∈ listed then some ((m.lock.sightings.since? n).getD t.time) else none := by
    rw [← h.prefix_eq] at hn
    rw [(st.hands h.coherent).since?, Lock.since?_told hn, Taken.time]
  refine ⟨st.coherent h.coherent, ad.lockPrefix.trans h.prefix_eq, ?_, ?_⟩
  · intro n first hn hf
    rw [record n hn] at hf
    split_ifs at hf with hl
    split at hf
    case h_1 hi =>
      refine .on (h.stands n first hn hf) ?_ hl
      rw [hi]
      nofun
    case h_2 listed hi =>
      split_ifs at hf with hm
      cases hs : m.lock.sightings.since? n with
      | none =>
        rw [hs] at hf
        exact .listed hi hm (Option.some.inj hf) hl
      | some f =>
        rw [hs] at hf
        cases hf
        refine .on (h.stands n f hn hs) ?_ hl
        rw [hi]
        rintro _ ⟨⟩
        exact hm
  · intro n first hn hs
    rw [record n hn]
    cases hs with
    | @listed _ _ listed hi hm htime hl =>
      rw [if_neg hl, hi]
      simp only [hm, if_true]
      refine ⟨_, ?_, rfl⟩
      cases hs : m.lock.sightings.since? n with
      | none => exact htime.le
      | some f =>
        -- What was on record before was seen no later than this listing.
        have hf := hle n f (h.stands n f hn hs)
        rw [← htime]
        exact Nat.le_trans hf ht
    | on hs hi hl =>
      rw [if_neg hl]
      obtain ⟨f, hf, hrec⟩ := h.seen n first hn hs
      refine ⟨f, hf, ?_⟩
      split
      case h_1 => exact hrec
      case h_2 listed hlist => rw [if_pos (hi listed hlist), hrec, Option.getD_some]

/-- A name that is listed is stale on the record if and only if it is stale in the history. -/
theorem isStale_iff {listed : List String} {now : Instant} {timeout : Duration}
    (h : Tracked lockPrefix steps m) (hn : Entry.IsQueued lockPrefix n) (hl : n ∈ listed) :
    (m.lock.observe listed now).sightings.isStale n now timeout = true ↔
      Stale timeout now steps n := by
  have hq : Entry.IsQueued m.lock.lockPrefix n := by
    rw [h.prefix_eq]
    exact hn
  rw [Sightings.isStale_iff, Lock.since?_observe hq, if_pos hl]
  constructor
  · rintro ⟨f, hf, hlt⟩
    cases hs : m.lock.sightings.since? n with
    | none =>
      -- A name that is seen for the first time is not stale.
      rw [hs] at hf
      cases hf
      rw [Option.getD_none] at hlt
      lia
    | some first =>
      rw [hs] at hf
      cases hf
      exact ⟨first, h.stands n first hn hs, hlt⟩
  · rintro ⟨first, hs, hlt⟩
    obtain ⟨f, hf, hrec⟩ := h.seen n first hn hs
    refine ⟨f, ?_, ?_⟩
    · rw [hrec, Option.getD_some]
    · lia

end Tracked

/-- In every history of a lock under a steady clock, the record is true to the history. -/
theorem History.tracked {owner : OwnerId} {timings : Timings} {strategy : Strategy} {l : Lock}
    (hl : Lock.create lockPrefix owner timings strategy = .ok l)
    (h : History Steady { lock := l } steps) :
    Tracked lockPrefix steps (Member.after { lock := l } steps) := by
  induction h with
  | nil =>
    obtain ⟨rfl, -, -⟩ := Lock.eq_of_create hl
    refine ⟨⟨nofun, nofun⟩, rfl, nofun, ?_⟩
    rintro n first - ⟨⟩
  | cons h ha st ih => exact ih.step ha st fun _ _ => h.le_since

end Member

end StoreLock
