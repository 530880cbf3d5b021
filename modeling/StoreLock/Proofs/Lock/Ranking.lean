import StoreLock.Proofs.Lock.Deletion
import StoreLock.Proofs.Lock.Poll
import StoreLock.Proofs.Lock.Tracking

/-!
# Held exactly when first

A call takes the lock if and only if one of the listings that it receives while it ranks its entry
shows the name of that entry and every queued name before it is stale. Both are told of names, their
bytes and the history of listings (`RanksFirst`), although the lock compares entries and looks at its
record of sightings: names stand in the order of their entries, and the record tells the same as the
history.

A call that has ranked its entry first is bound to end with the lock held: it has only the stale names
to delete, whatever the store answers (`Winning`). And no call tells that it holds the lock, or gets
ready to, without having ranked its entry first (`Step.announces`).
-/

namespace StoreLock

/-- Whether a listing ranks an own entry first: it shows the name, and every queued name before it has
stood for longer than the timeout. -/
def RanksFirst (lockPrefix : String) (timeout : Duration) (steps : List Taken) (now : Instant)
    (listed : List String) (own : String) : Prop :=
  own ∈ listed ∧ ∀ n ∈ listed, Entry.IsQueued lockPrefix n → Text.toUtf8 n < Text.toUtf8 own →
    Stale timeout now steps n

namespace Lock

/-- Whether a call that has come this far tells that the lock is held, or gets ready to tell it. -/
def Progress.Announces : Progress → Prop
  | .done o => o = .acquired
  | .request (.abandoning _ o) => o = .acquired
  | .request (.reclaiming _ st _ _) => st = .first
  | _ => False

variable {l : Lock} {a : Attempt} {w : Window} {r : Reading} {listed : List String} {now : Instant}

lemma mem_eligible {e : Entry} : e ∈ l.eligible a.entry listed now ↔
    ∃ n ∈ listed, l.queued? n = some e ∧ l.isReclaimable a.entry now n = false := by
  simp only [eligible, List.mem_filterMap, List.mem_filter, Bool.not_eq_true']
  constructor
  · rintro ⟨n, ⟨hn, hr⟩, hq⟩
    exact ⟨n, hn, hq, hr⟩
  · rintro ⟨n, hn, hq, hr⟩
    exact ⟨n, ⟨hn, hr⟩, hq⟩

/-- An entry is first if it counts and no other that counts comes before it. -/
lemma standing_eq_first_iff : l.standing a listed now = .first ↔
    a.entry ∈ l.eligible a.entry listed now ∧
      ∀ e ∈ l.eligible a.entry listed now, a.entry.le e = true := by
  rw [standing, ← List.all_eq_true]
  split_ifs with hm ha ht
  · simp [hm, ha]
  · simp [ha]
  · simp [hm]
  · simp [hm]

/-- An entry is taken for gone if it does not count and is older than the timeout. -/
lemma standing_eq_reclaimed_iff : l.standing a listed now = .reclaimed ↔
    a.entry ∉ l.eligible a.entry listed now ∧ a.createdAt + l.timings.timeout < now := by
  rw [standing, ← Nat.lt_sub_iff_add_lt']
  split_ifs with hm ha ht
  · simp [hm]
  · simp [hm]
  · simp [hm, ht]
  · simp [ht]

lemma abandon_announces {o : Outcome} (h : (l.abandon o).2.Announces) : o = .acquired := by
  rw [abandon] at h
  split at h <;> exact h

lemma not_pause_announces {d : Duration} : ¬ (l.pause w d r).2.Announces := by
  intro h
  rw [pause] at h
  split at h
  case isTrue => cases abandon_announces h
  case isFalse => exact h

lemma not_start_announces {limit : WaitLimit} : ¬ (l.start limit r).2.Announces := by
  intro h
  rw [start] at h
  split at h
  case isTrue => cases abandon_announces h
  case isFalse => exact h

lemma not_acquire_announces {limit : WaitLimit} : ¬ (l.acquire limit r).2.Announces := by
  intro h
  rw [acquire] at h
  split at h
  case h_1 => cases h
  case h_2 => exact not_start_announces h
  case h_3 =>
    split at h
    case h_1 => exact not_start_announces h
    case h_2 => exact h
  case h_4 =>
    split at h
    case h_1 => exact not_start_announces h
    case h_2 => exact h

lemma not_release_announces : ¬ l.release.2.Announces := by
  intro h
  rw [release] at h
  split at h
  case isTrue => split at h <;> cases h
  case isFalse => cases h

lemma conclude_announces {st : Standing} (h : (l.conclude w st r).2.Announces) : st = .first := by
  cases st with
  | first => rfl
  | waiting =>
    rw [conclude] at h
    split at h
    case isTrue => cases abandon_announces h
    case isFalse => exact (not_pause_announces h).elim
  | reclaimed =>
    rw [conclude] at h
    split at h <;> exact h.elim

lemma reclaim_announces {st : Standing} {names : List String}
    (h : (l.reclaim w st names r).2.Announces) : st = .first := by
  cases names with
  | nil => exact conclude_announces h
  | cons name rest => exact h

lemma not_wake_announces {rest : Rest} {ended : PauseEnd} :
    ¬ (l.wake rest ended r).2.Announces := by
  intro h
  cases ended with
  | cancelled => cases abandon_announces h
  | elapsed =>
    rw [wake] at h
    split at h
    case h_1 => cases conclude_announces h
    case h_2 => exact h

end Lock

namespace Member

variable {m m' : Member} {input : Input} {a : Attempt} {names : List String} {steps : List Taken}
  {lockPrefix : String} {timeout : Duration}

/-- Whether the call in progress tells that the lock is held, or gets ready to tell it. -/
def Announces (m : Member) : Prop :=
  ∃ p, m.progress = some p ∧ p.Announces

/-- Whether a step ranks the entry of an attempt first. -/
def RankedFirst (m : Member) (input : Input) (a : Attempt) : Prop :=
  ∃ w listed r, input = .answer (.ranking w) (.ok listed) r ∧ m.lock.attempt = some a ∧
    (m.lock.observe listed r.now).standing a listed r.now = .first

/-- A call announces that the lock is held only after it has ranked its own entry first. -/
lemma Step.announces (st : Step m input m') (hm : m.Coherent) (h : m'.Announces) :
    m.Announces ∨ ∃ a, RankedFirst m input a := by
  obtain ⟨p, hp', h⟩ := h
  cases st with
  | acquire =>
    cases hp'
    exact (Lock.not_acquire_announces h).elim
  | release =>
    cases hp'
    exact (Lock.not_release_announces h).elim
  | wake =>
    cases hp'
    exact (Lock.not_wake_announces h).elim
  | drop => cases hp'
  | @answer phase answer r hp =>
    cases hp'
    cases phase with
    | clearing limit name => exact (Lock.not_start_announces h).elim
    | seeding w =>
      cases answer with
      | ok listed => exact h.elim
      | error e => cases Lock.abandon_announces h
    | creating w entry contents =>
      cases answer with
      | ok u => exact (Lock.not_pause_announces h).elim
      | error e => cases Lock.abandon_announces h
    | ranking w =>
      cases answer with
      | ok listed =>
        obtain ⟨a, ha⟩ := hm.attempt (IsRanking.isQueuing ⟨w, hp⟩)
        have h' : (m.lock.judge w listed r).2.Announces := h
        rw [Lock.judge, ha] at h'
        exact .inr ⟨a, w, listed, r, rfl, ha, Lock.reclaim_announces h'⟩
      | error e => cases Lock.abandon_announces h
    | reclaiming w st name rest => exact .inl ⟨_, hp, Lock.reclaim_announces h⟩
    | discarding w name => exact h.elim
    | abandoning name o => exact .inl ⟨_, hp, h⟩
    | releasing name => cases answer <;> cases h

/-- A call that has ranked its entry first, with the stale names that are left to be deleted. -/
inductive Winning (a : Attempt) : List String → Member → Prop where
  | held {m : Member} :
    m.lock.attempt = some a →
    m.lock.state = .held →
    m.progress = some (.done .acquired) →
    Winning a [] m
  | deleting {m : Member} {w : Window} {name : String} {rest : List String} :
    m.lock.attempt = some a →
    m.progress = some (.request (.reclaiming w .first name rest)) →
    Winning a (name :: rest) m

lemma reclaim_winning {l : Lock} (ha : l.attempt = some a) (w : Window) (names : List String)
    (r : Reading) (now : Instant) :
    Winning a names (ofTurn (l.reclaim w .first names r) now) := by
  cases names with
  | nil => exact .held ha rfl rfl
  | cons name rest => exact .deleting ha rfl

/-- A step that ranks an entry first leaves the stale names to be deleted. -/
lemma Step.winning (st : Step m input m') {w : Window} {listed : List String} {r : Reading}
    (hi : input = .answer (.ranking w) (.ok listed) r) (ha : m.lock.attempt = some a)
    (hs : (m.lock.observe listed r.now).standing a listed r.now = .first) :
    Winning a ((m.lock.observe listed r.now).stale a.entry listed r.now) m' := by
  subst hi
  cases st
  have h := reclaim_winning (l := m.lock.observe listed r.now) (a := a)
    (by rw [Lock.observe_attempt, ha]) w
    ((m.lock.observe listed r.now).stale a.entry listed r.now) r r.now
  change Winning a _ (ofTurn (m.lock.judge w listed r) r.now)
  rw [Lock.judge, ha]
  rw [← hs] at h
  exact h

/-- Such a call goes on by deleting the next of them, whatever the store answers. -/
lemma Winning.step (h : Winning a names m) (st : Step m input m') (hi : input.GoesOn) :
    ∃ name rest, names = name :: rest ∧ input.request? = some (.delete name) ∧
      input.listing? = none ∧ Winning a rest m' := by
  cases st with
  | acquire => exact hi.elim
  | release => exact hi.elim
  | drop => exact hi.elim
  | wake hp =>
    cases h with
    | held _ _ hp' =>
      rw [hp] at hp'
      cases hp'
    | deleting _ hp' =>
      rw [hp] at hp'
      cases hp'
  | @answer phase answer r hp =>
    cases h with
    | held _ _ hp' =>
      rw [hp] at hp'
      cases hp'
    | @deleting _ w name rest ha hp' =>
      rw [hp] at hp'
      cases hp'
      exact ⟨name, rest, rfl, rfl, rfl, reclaim_winning ha w rest r r.now⟩

/-- Such a call is over after as many answers as there are names left, and has no other way to go. -/
lemma Winning.history {allowed : Member → Input → Prop} (h : Winning a names m)
    (hist : History allowed m steps) (hon : ∀ t ∈ steps, t.input.GoesOn) :
    ∃ deleted left, names = deleted ++ left ∧ deleted.length = steps.length ∧
      Winning a left (m.after steps) ∧ (∀ t ∈ steps, t.input.listing? = none) ∧
      ∀ n ∈ deleted, ∃ t ∈ steps, t.input.request? = some (.delete n) := by
  -- The latest step takes the first of the names that were left before it.
  induction hist with
  | nil => exact ⟨[], names, rfl, rfl, h, by simp, by simp⟩
  | @cons steps t hist _ st ih =>
    obtain ⟨deleted, left, he, hlen, hw, hlist, hdel⟩ :=
      ih fun t' ht' => hon t' (List.mem_cons_of_mem _ ht')
    obtain ⟨name, rest, rfl, hreq, hnone, hw'⟩ := hw.step st (hon t List.mem_cons_self)
    refine ⟨deleted ++ [name], rest, ?_, ?_, hw', ?_, ?_⟩
    · rw [he, List.append_assoc]
      rfl
    · rw [List.length_append, hlen]
      rfl
    · intro t' ht'
      rcases List.mem_cons.mp ht' with rfl | ht'
      · exact hnone
      · exact hlist t' ht'
    · intro n hn
      rcases List.mem_append.mp hn with hn | hn
      · obtain ⟨t', ht', hr⟩ := hdel n hn
        exact ⟨t', List.mem_cons_of_mem _ ht', hr⟩
      · cases List.mem_singleton.mp hn
        exact ⟨t, List.mem_cons_self, hreq⟩

/-- A listed and queued name other than the own one is to be reclaimed if and only if it is stale in
the history. -/
lemma Tracked.isReclaimable_iff {listed : List String} {now : Instant} {own : Entry} {n : String}
    (h : Tracked lockPrefix steps m) (hn : n ∈ listed) (hne : n ≠ own.name)
    (hq : Entry.IsQueued lockPrefix n) :
    (m.lock.observe listed now).isReclaimable own now n = true ↔
      Stale m.lock.timings.timeout now steps n := by
  have hs : ((m.lock.observe listed now).queued? n).isSome = true := by
    rw [Option.isSome_iff_exists, Lock.exists_queued?_iff, Lock.observe_lockPrefix, h.prefix_eq]
    exact hq
  rw [Lock.isReclaimable, hs, ← h.isStale_iff hq hn, Lock.observe_timings]
  simp [hne]

/-- The entry of an attempt is first in a listing if and only if its name is, by the history. -/
lemma Tracked.standing_eq_first_iff {listed : List String} {now : Instant}
    (h : Tracked lockPrefix steps m) (hp : a.entry.Proper) (hpre : a.entry.lockPrefix = lockPrefix) :
    (m.lock.observe listed now).standing a listed now = .first ↔
      RanksFirst lockPrefix m.lock.timings.timeout steps now listed a.entry.name := by
  have hq (n : String) (e : Entry) : (m.lock.observe listed now).queued? n = some e ↔
      Entry.read n = .ok e ∧ e.lockPrefix = lockPrefix := by
    rw [Lock.observe_queued?, Lock.queued?_eq_some, h.prefix_eq]
  rw [Lock.standing_eq_first_iff]
  constructor
  · rintro ⟨hown, hall⟩
    refine ⟨?_, ?_⟩
    · obtain ⟨n, hn, hqn, -⟩ := Lock.mem_eligible.mp hown
      rw [(Entry.name_of_read ((hq _ _).mp hqn).1).1]
      exact hn
    · intro n hn hqn hlt
      have hne : n ≠ a.entry.name := by
        rintro rfl
        exact List.lt_irrefl _ hlt
      rw [← h.isReclaimable_iff hn hne hqn]
      obtain ⟨e, hread, he⟩ := hqn
      by_contra hnot
      have hle := hall e (Lock.mem_eligible.mpr
        ⟨n, hn, (hq n e).mpr ⟨hread, he⟩, Bool.not_eq_true _ ▸ hnot⟩)
      rw [Entry.le_iff_not_toUtf8_lt (hpre.trans he.symm), (Entry.name_of_read hread).1] at hle
      exact hle hlt
  · rintro ⟨hown, hall⟩
    refine ⟨?_, ?_⟩
    · refine Lock.mem_eligible.mpr ⟨a.entry.name, hown, (hq _ _).mpr ⟨Entry.read_name hp, hpre⟩, ?_⟩
      simp [Lock.isReclaimable]
    · intro e he
      obtain ⟨n, hn, hqn, hkept⟩ := Lock.mem_eligible.mp he
      obtain ⟨hread, hepre⟩ := (hq n e).mp hqn
      rw [Entry.le_iff_not_toUtf8_lt (hpre.trans hepre.symm), (Entry.name_of_read hread).1]
      intro hlt
      have hne : n ≠ a.entry.name := by
        rintro rfl
        exact List.lt_irrefl _ hlt
      have hstale := hall n hn ⟨e, hread, hepre⟩ hlt
      rw [← h.isReclaimable_iff hn hne ⟨e, hread, hepre⟩, hkept] at hstale
      cases hstale

lemma IsCall.exists_rankedFirst {allowed : Member → Input → Prop} {limit : WaitLimit}
    {start : Instant} (hc : IsCall limit start steps) (h : History allowed m steps)
    (hm : m.Coherent) (ha : (m.after steps).Announces) :
    ∃ newer t older a, steps = newer ++ t :: older ∧ RankedFirst (m.after older) t.input a := by
  induction hc with
  | @begins t r hi _ =>
    cases h with
    | cons _ _ st =>
      rw [hi] at st
      rw [after_cons] at ha
      generalize t.member = m' at st ha
      obtain ⟨p, hp, ha⟩ := ha
      cases st
      cases hp
      exact (Lock.not_acquire_announces ha).elim
  | @goesOn t call hc hon ih =>
    cases h with
    | cons h _ st =>
      -- The call announced it before the latest step, or this step has ranked the entry first.
      rcases st.announces (h.coherent hm) ha with ha | ⟨a, hr⟩
      · obtain ⟨newer, t', older, a, rfl, hr⟩ := ih h ha
        exact ⟨t :: newer, t', older, a, rfl, hr⟩
      · exact ⟨[], t, call, a, rfl, hr⟩

lemma History.proper {allowed : Member → Input → Prop} {owner : OwnerId} {timings : Timings}
    {strategy : Strategy} {l : Lock} (hl : Lock.create lockPrefix owner timings strategy = .ok l)
    (ho : OwnerId.accepts owner.text = true) (h : History allowed { lock := l } steps)
    (ha : (Member.after { lock := l } steps).lock.attempt = some a) :
    a.entry.Proper ∧ a.entry.lockPrefix = lockPrefix := by
  have recorded := h.run.recorded hl
  obtain ⟨hpre, hown⟩ := recorded.created _ (recorded.attempt a ha)
  obtain ⟨-, hne, -⟩ := Lock.eq_of_create hl
  refine ⟨⟨?_, ?_⟩, hpre⟩
  · rw [hpre]
    exact hne
  · rw [hown]
    exact ho

/-- A listing that was received to rank the own entry shows it first. -/
structure Wins (lockPrefix : String) (timeout : Duration) (m : Member) (steps : List Taken)
    (t : Taken) (listed : List String) (own : String) : Prop where
  ranking : ∃ w r, t.input = .answer (.ranking w) (.ok listed) r
  entry : (m.after steps).lock.entryName? = some own
  first : RanksFirst lockPrefix timeout steps t.time listed own

/-- A call has ended with the lock held by an own entry, and every queued name that was listed before
it has been sent for deletion. -/
structure EndsHeld (lockPrefix : String) (newer : List Taken) (listed : List String) (own : String)
    (m : Member) : Prop where
  acquired : m.progress = some (.done .acquired)
  held : m.lock.state = .held
  entry : m.lock.entryName? = some own
  deleted : ∀ n ∈ listed, Entry.IsQueued lockPrefix n → Text.toUtf8 n < Text.toUtf8 own →
    ∃ t ∈ newer, t.input.request? = some (.delete n)

/-- What a call does after a listing that shows its own entry first: it receives no other listing, and
until it ends with the lock held it only waits for deletions, no more of them than names were
listed. -/
structure Follows (lockPrefix : String) (newer : List Taken) (listed : List String) (own : String)
    (m : Member) : Prop where
  last : ∀ t ∈ newer, t.input.listing? = none
  bounded : newer.length ≤ listed.length
  ends : EndsHeld lockPrefix newer listed own m ∨
    ∃ phase n, m.progress = some (.request phase) ∧ phase.request = .delete n

section

variable {owner : OwnerId} {timings : Timings} {strategy : Strategy} {l : Lock} {limit : WaitLimit}
  {start : Instant} {call earlier newer older : List Taken} {t : Taken} {listed : List String}
  {own : String}

/-- A step ranks an entry first in the comparison of the lock if and only if it does so by the
history. -/
lemma History.wins_iff (hl : Lock.create lockPrefix owner timings strategy = .ok l)
    (ho : OwnerId.accepts owner.text = true) (h : History Steady { lock := l } steps) :
    (∃ listed own, Wins lockPrefix timings.timeout { lock := l } steps t listed own) ↔
      ∃ a, RankedFirst (Member.after { lock := l } steps) t.input a := by
  have tracked := h.tracked hl
  have htime := (h.run.recorded hl).timeout_eq
  constructor
  · rintro ⟨listed, own, ⟨w, r, hi⟩, hentry, hfirst⟩
    obtain ⟨a, ha, rfl⟩ := Option.map_eq_some_iff.mp hentry
    obtain ⟨hp, hpre⟩ := h.proper hl ho ha
    refine ⟨a, w, listed, r, hi, ha, ?_⟩
    rw [tracked.standing_eq_first_iff hp hpre, htime]
    rw [Taken.time, hi] at hfirst
    exact hfirst
  · rintro ⟨a, w, listed, r, hi, ha, hs⟩
    obtain ⟨hp, hpre⟩ := h.proper hl ho ha
    rw [tracked.standing_eq_first_iff hp hpre, htime] at hs
    refine ⟨listed, a.entry.name, ⟨w, r, hi⟩, ?_, ?_⟩
    · rw [Lock.entryName?, ha]
      rfl
    · rw [Taken.time, hi]
      exact hs

/-- After a listing that shows the own entry first, a call has nothing to do but delete what is
stale. -/
lemma History.follows (hl : Lock.create lockPrefix owner timings strategy = .ok l)
    (ho : OwnerId.accepts owner.text = true)
    (h : History Steady { lock := l } (newer ++ t :: steps)) (hon : ∀ t' ∈ newer, t'.input.GoesOn)
    (hw : Wins lockPrefix timings.timeout { lock := l } steps t listed own) :
    Follows lockPrefix newer listed own (Member.after { lock := l } (newer ++ t :: steps)) := by
  have hafter := h.from_append
  cases h.of_append with
  | cons hsteps _ st =>
    have tracked := hsteps.tracked hl
    have htime := (hsteps.run.recorded hl).timeout_eq
    obtain ⟨⟨w, r, hi⟩, hentry, hfirst⟩ := hw
    obtain ⟨a, ha, rfl⟩ := Option.map_eq_some_iff.mp hentry
    obtain ⟨hp, hpre⟩ := hsteps.proper hl ho ha
    rw [Taken.time, hi] at hfirst
    have hs := hfirst
    rw [← htime] at hs
    rw [← tracked.standing_eq_first_iff hp hpre] at hs
    obtain ⟨deleted, left, he, hlen, hwin, hlist, hdel⟩ :=
      (st.winning hi ha hs).history hafter hon
    refine ⟨hlist, ?_, ?_⟩
    · calc newer.length = deleted.length := hlen.symm
        _ ≤ (deleted ++ left).length := by
          rw [List.length_append]
          exact Nat.le_add_right _ _
        _ ≤ listed.length := by
          rw [← he]
          exact List.length_filter_le _ _
    · rw [after_append, after_cons]
      cases hwin with
      | deleting _ hp' => exact .inr ⟨_, _, hp', rfl⟩
      | held ha' hs' hp' =>
        refine .inl ⟨hp', hs', ?_, ?_⟩
        · rw [Lock.entryName?, ha']
          rfl
        · -- All that was stale has been deleted, and what comes before the own entry was stale.
          intro n hn hq hlt
          have hne : n ≠ a.entry.name := by
            rintro rfl
            exact List.lt_irrefl _ hlt
          refine hdel n ?_
          rw [List.append_nil] at he
          rw [← he, Lock.stale, List.mem_filter]
          refine ⟨hn, (tracked.isReclaimable_iff hn hne hq).mpr ?_⟩
          rw [htime]
          exact hfirst.2 n hn hq hlt

/-- A call that has ended took the lock if and only if a listing that it received to rank its own entry
showed the name of that entry and, before it in the order of bytes, only names that were stale. That
listing is the last one of the call, and from it on the call does nothing but delete stale names, until
it ends with the lock held. -/
theorem acquired_iff_wins (hl : Lock.create lockPrefix owner timings strategy = .ok l)
    (ho : OwnerId.accepts owner.text = true)
    (h : History Steady { lock := l } (call ++ earlier)) (hc : IsCall limit start call) :
    (∀ o, (Member.after { lock := l } (call ++ earlier)).progress = some (.done o) →
      (o = .acquired ↔ ∃ newer t older listed own, call = newer ++ t :: older ∧
        Wins lockPrefix timings.timeout { lock := l } (older ++ earlier) t listed own)) ∧
      ∀ newer t older listed own, call = newer ++ t :: older →
        Wins lockPrefix timings.timeout { lock := l } (older ++ earlier) t listed own →
        Follows lockPrefix newer listed own (Member.after { lock := l } (call ++ earlier)) := by
  have follows (newer : List Taken) (t : Taken) (older : List Taken) (listed : List String)
      (own : String) (he : call = newer ++ t :: older)
      (hw : Wins lockPrefix timings.timeout { lock := l } (older ++ earlier) t listed own) :
      Follows lockPrefix newer listed own (Member.after { lock := l } (call ++ earlier)) := by
    subst he
    rw [List.append_assoc, List.cons_append] at h ⊢
    exact h.follows hl ho hc.of_append.1 hw
  refine ⟨?_, follows⟩
  intro o hd
  constructor
  · rintro rfl
    rw [after_append] at hd
    obtain ⟨newer, t, older, a, rfl, hr⟩ :=
      hc.exists_rankedFirst h.from_append (h.of_append.run.recorded hl).coherent ⟨_, hd, rfl⟩
    rw [← after_append] at hr
    rw [List.append_assoc, List.cons_append] at h
    cases h.of_append with
    | cons hsteps _ _ =>
      obtain ⟨listed, own, hw⟩ := (hsteps.wins_iff hl ho).mpr ⟨a, hr⟩
      exact ⟨newer, t, older, listed, own, rfl, hw⟩
  · rintro ⟨newer, t, older, listed, own, he, hw⟩
    rcases (follows newer t older listed own he hw).ends with hend | ⟨phase, n, hp, -⟩
    · rw [hend.acquired] at hd
      cases hd
      rfl
    · rw [hp] at hd
      cases hd

end

/-- A lock that has seen another's entry for a second more than the timeout is taken over that entry,
although the store fails to delete it. -/
theorem wins_over_stale : ∃ l call newer t older listed own,
    Lock.create "p" ⟨"a"⟩ .recommended .counter = .ok l ∧ OwnerId.accepts "a" = true ∧
      History Steady { lock := l } (call ++ []) ∧ IsCall none 0 call ∧
      (Member.after { lock := l } (call ++ [])).progress = some (.done .acquired) ∧
      call = newer ++ t :: older ∧
      Wins "p" Timings.recommended.timeout { lock := l } (older ++ []) t listed own ∧
      Follows "p" newer listed own (Member.after { lock := l } (call ++ [])) := by
  let other := "p_00000000000000000007_b"
  let e : Entry := ⟨"p", 8, ⟨"a"⟩⟩
  let late : Instant := 901000000000
  let w : Window := ⟨0, none⟩
  have ho : OwnerId.accepts "a" = true := by
    decide +kernel
  obtain ⟨l, hl, hidle, he, hlate, hfirst, hstale⟩ :
      ∃ l, Lock.create "p" ⟨"a"⟩ .recommended .counter = .ok l ∧ l.state = .idle ∧
        (l.entered [other] 0).attempt = some ⟨e, 0⟩ ∧
        0 + w.cut 0 l.timings.settling ≤ late ∧
        ((l.entered [other] 0).observe [other, e.name] late).standing ⟨e, 0⟩ [other, e.name] late =
          .first ∧
        ((l.entered [other] 0).observe [other, e.name] late).stale e [other, e.name] late =
          [other] := by
    refine ⟨⟨"p", ⟨"a"⟩, .recommended, { strategy := .counter }, {}, .idle, none⟩, ?_⟩
    decide +kernel
  -- From here on the names are opaque: what is to be computed with them has been.
  clear_value other e late
  generalize hlisted : [other, e.name] = listed at hfirst hstale
  generalize hseen : (l.entered [other] 0).observe listed late = seen at hfirst hstale
  have hjudge : (l.entered [other] 0).judge w listed (.calm late) =
      (seen, .request (.reclaiming w .first other [])) := by
    rw [Lock.judge, he]
    change ((l.entered [other] 0).observe listed late).reclaim w _ _ _ = _
    simp only [Reading.calm, hseen, hfirst, hstale]
    rfl
  have hranked : Member.after { lock := l } (poll l none [other] listed e 0 late) =
      ⟨seen, some (.request (.reclaiming w .first other [])), late⟩ := by
    rw [after_poll, hjudge]
    rfl
  let m : Member := ofTurn (seen.conclude w .first (.calm late)) late
  let call : List Taken :=
    ⟨.answer (.reclaiming w .first other []) (.error (.unavailable "")) (.calm late), m⟩ ::
      poll l none [other] listed e 0 late
  have h : History Steady { lock := l } (call ++ []) := by
    rw [List.append_nil]
    refine .cons ((history_poll hidle he hlate).mono fun _ _ h => h.steady) ?_ ?_
    · rw [hranked]
      exact Nat.le_refl _
    · rw [hranked]
      exact .answered rfl rfl
  have hc : IsCall none 0 call := .goesOn isCall_poll trivial
  obtain ⟨hiff, hfollows⟩ := acquired_iff_wins hl ho h hc
  obtain ⟨newer, t, older, listed', own, hcall, hw⟩ := (hiff .acquired rfl).mp rfl
  exact ⟨l, call, newer, t, older, listed', own, hl, ho, h, hc, rfl, hcall, hw,
    hfollows newer t older listed' own hcall hw⟩

end Member

end StoreLock
