import StoreLock.Proofs.Lock.Ending
import StoreLock.Proofs.Lock.Ranking

/-!
# No overtaking

A lock draws the sequence of a new entry behind the listing it was shown, so the entry stands behind every other
that was listed, and no ranking in which such an other still counts puts it first
(`Member.queues_behind_listed`). Only the largest sequence has none behind it: a lock that is shown it draws it
once more, and then the owners decide (`Lock.toUtf8_lt_drawn_iff`). So an entry written with that sequence can be
overtaken by one whose owner comes before its own (`Member.overtakes_largest`).
-/

namespace StoreLock

namespace Sequencer

/-- A source that has seen the largest sequence draws it. -/
lemma next_eq_most {s : Sequencer} (unixMillis : UInt64) (hs : s.highestSeen = some most) :
    (s.next unixMillis).1 = most := by
  have hbase := (s.base unixMillis).toNat_lt
  have hlast := (above s.last).toNat_lt
  have hmost : most.toNat = 2 ^ 64 - 1 := rfl
  apply UInt64.toNat_inj.mp
  rw [toNat_next, hs, above, toNat_after]
  omega

end Sequencer

namespace Entry

/-- Entries of one lock and one sequence stand in the order of their owners. -/
lemma compare_of_sequence_eq {a b : Entry} (hp : a.lockPrefix = b.lockPrefix)
    (hs : a.sequence = b.sequence) : compare a b = compare a.owner.text b.owner.text := by
  have hprefix : compare b.lockPrefix b.lockPrefix = .eq := Std.ReflCmp.compare_self
  have hsequence : compare b.sequence b.sequence = .eq := Std.ReflCmp.compare_self
  rw [compare_def, hp, hs, hprefix, hsequence]
  rfl

/-- Whether there is room behind an entry for one that this owner draws: there is a larger sequence, or the owner
comes behind that of the entry. -/
def LeavesRoom (owner : OwnerId) (e : Entry) : Prop :=
  e.sequence ≠ Sequencer.most ∨ Text.toUtf8 e.owner.text < Text.toUtf8 owner.text

end Entry

namespace Lock

variable {l : Lock} {listed : List String} {now : Instant} {n : String} {e : Entry} {a : Attempt}

/-- The entry that a lock draws behind a listing. -/
def drawnEntry (l : Lock) (listed : List String) (now : Instant) (unixMillis : UInt64) : Entry :=
  ⟨l.lockPrefix, ((l.observe listed now).sequencer.next unixMillis).1, l.owner⟩

/-- A lock that has been shown the queue asks for the entry that it draws. -/
lemma register_progress (l : Lock) (w : Window) (listed : List String) (r : Reading) :
    ∃ contents, (l.register w listed r).2 =
      .request (.creating w (l.drawnEntry listed r.now r.unixMillis) contents) := by
  simp only [register, observe_lockPrefix, observe_owner, drawnEntry]
  exact ⟨_, rfl⟩

/-- A listed name stands before the entry that is drawn behind it, unless it has the largest sequence and its owner
does not come before the lock's own. -/
theorem toUtf8_lt_drawn_iff (now : Instant) (unixMillis : UInt64) (hn : n ∈ listed) (he : l.queued? n = some e) :
    Text.toUtf8 n < Text.toUtf8 (l.drawnEntry listed now unixMillis).name ↔ e.LeavesRoom l.owner := by
  obtain ⟨hread, hpre⟩ := queued?_eq_some.mp he
  obtain ⟨rfl, -⟩ := Entry.name_of_read hread
  rw [Entry.toUtf8_name_lt_iff (hpre.trans rfl), Entry.LeavesRoom]
  by_cases hm : e.sequence = Sequencer.most
  · -- The largest sequence is drawn again, and the owners decide.
    obtain ⟨high, hhigh, hle⟩ := le_highestSeen_of_mem now hn he
    have hmost : high = Sequencer.most := by
      have hlt := high.toNat_lt
      have hle' := UInt64.le_iff_toNat_le.mp hle
      have hmost : Sequencer.most.toNat = 2 ^ 64 - 1 := rfl
      rw [hm] at hle'
      apply UInt64.toNat_inj.mp
      omega
    rw [hmost] at hhigh
    have hseq : e.sequence = (l.drawnEntry listed now unixMillis).sequence :=
      hm.trans (Sequencer.next_eq_most unixMillis hhigh).symm
    rw [Entry.compare_of_sequence_eq hpre hseq, Text.compare_eq_lt, ← String.lt_iff_toList_lt,
      Text.toUtf8_lt_toUtf8_iff]
    simp [hm, drawnEntry]
  · have hlt : e.sequence < (l.drawnEntry listed now unixMillis).sequence :=
      lt_next_of_mem_listed unixMillis hn he hm
    exact iff_of_true (Entry.compare_eq_lt hpre hlt) (.inl hm)

/-- An entry is not first in a listing that shows another before it which is not stale. -/
lemma standing_ne_first_of_shown (hn : n ∈ listed) (he : l.queued? n = some e)
    (ha : a.entry.lockPrefix = l.lockPrefix) (hlt : Text.toUtf8 n < Text.toUtf8 a.entry.name)
    (hs : l.sightings.isStale n now l.timings.timeout = false) : l.standing a listed now ≠ .first := by
  intro hfirst
  obtain ⟨hread, hpre⟩ := queued?_eq_some.mp he
  have hkept : l.isReclaimable a.entry now n = false := by
    rw [isReclaimable, hs, Bool.and_false]
  have hle := le_of_standing_first hfirst hn he hkept
  rw [Entry.le_iff_not_toUtf8_lt (ha.trans hpre.symm), (Entry.name_of_read hread).1] at hle
  exact hle hlt

end Lock

namespace Member

/-- Whether an input is a listing that ranks the own entry and shows a name which is not stale for the lock. -/
def Faces (m : Member) (input : Input) (n : String) : Prop :=
  ∃ w listed r, input = .answer (.ranking w) (.ok listed) r ∧ n ∈ listed ∧
    (m.lock.observe listed r.now).sightings.isStale n r.now m.lock.timings.timeout = false

variable {allowed : Member → Input → Prop} {l : Lock} {lockPrefix n : String} {owner : OwnerId} {timings : Timings}
  {strategy : Strategy} {later earlier : List Taken} {t : Taken} {w : Window} {listed : List String} {r : Reading}
  {e : Entry}

/-- No overtaking. The entry that a lock asks for behind a listing stands, in the order of the bytes of names, behind
each name of its queue that was listed, if and only if that name's sequence is not the largest or its owner comes
before the lock's own. If so, no listing that still shows the name, not stale for the lock, ranks the entry first. -/
theorem queues_behind_listed (hl : Lock.create lockPrefix owner timings strategy = .ok l)
    (h : History allowed { lock := l } (later ++ t :: earlier))
    (hi : t.input = .answer (.seeding w) (.ok listed) r) (hn : n ∈ listed) (hread : Entry.read n = .ok e)
    (hpre : e.lockPrefix = lockPrefix) :
    ∃ own contents, t.member.progress = some (.request (.creating w own contents)) ∧
      own.lockPrefix = lockPrefix ∧ own.owner = owner ∧
      (Text.toUtf8 n < Text.toUtf8 own.name ↔ e.LeavesRoom owner) ∧
      (e.LeavesRoom owner → ∀ newer t' older, later = newer ++ t' :: older →
        Faces (Member.after { lock := l } (older ++ t :: earlier)) t'.input n →
        ∀ a, a.entry = own → ¬ RankedFirst (Member.after { lock := l } (older ++ t :: earlier)) t'.input a) := by
  cases h.of_append with
  | cons hearlier _ st =>
    have recorded := hearlier.run.recorded hl
    have hp := recorded.prefix_eq
    have ho := recorded.owner_eq
    rw [hi] at st
    generalize Member.after { lock := l } earlier = m at st recorded hp ho
    -- The lock draws the entry from what it knows after the listing.
    have hq : m.lock.queued? n = some e := Lock.queued?_eq_some.mpr ⟨hread, hpre.trans hp.symm⟩
    have hm : t.member = ofTurn (m.lock.register w listed r) r.now := st.of_answer
    have hbehind := Lock.toUtf8_lt_drawn_iff r.now r.unixMillis hn hq
    rw [ho] at hbehind
    obtain ⟨contents, hcreating⟩ := m.lock.register_progress w listed r
    refine ⟨m.lock.drawnEntry listed r.now r.unixMillis, contents, ?_, hp, ho, hbehind, ?_⟩
    · rw [hm]
      exact congrArg some hcreating
    · rintro hroom newer t' older rfl ⟨w', listed', r', hi', hn', hs⟩ a ha ⟨_, _, _, hi'', -, hfirst⟩
      rw [hi'] at hi''
      cases hi''
      rw [List.append_assoc, List.cons_append] at h
      cases h.of_append with
      | cons holder _ _ =>
        have hp' := (holder.run.recorded hl).prefix_eq
        refine Lock.standing_ne_first_of_shown hn' (e := e) ?_ ?_ ?_ ?_ hfirst
        · exact Lock.observe_queued?.trans (Lock.queued?_eq_some.mpr ⟨hread, hpre.trans hp'.symm⟩)
        · rw [ha, Lock.observe_lockPrefix, hp']
          exact hp
        · rw [ha]
          exact hbehind.mpr hroom
        · rw [Lock.observe_timings]
          exact hs

/-- In the shortest call the entry is drawn behind one listing and ranked in another. -/
lemma poll_split (l : Lock) (limit : WaitLimit) (listed listed' : List String) (e : Entry) (now late : Instant)
    (m : Member) : ∃ t' older t earlier contents,
      poll l limit listed listed' e now late = t' :: older ++ t :: earlier ∧
      t.input = .answer (.seeding ⟨now, limit⟩) (.ok listed) (.calm now) ∧
      t.member.progress = some (.request (.creating ⟨now, limit⟩ e contents)) ∧
      t'.input = .answer (.ranking ⟨now, limit⟩) (.ok listed') (.calm late) ∧
      (m.after (older ++ t :: earlier)).lock = l.entered listed now := by
  refine ⟨_, [_, _], _, [_], _, rfl, rfl, rfl, rfl, rfl⟩

/-- A lock that was shown an entry with the sequence seven is behind it, and waits while it is shown. -/
theorem queues_behind_seven : ∃ l e t' older t earlier own contents,
    Lock.create "p" ⟨"a"⟩ .recommended .counter = .ok l ∧
      History Punctual { lock := l } (t' :: older ++ t :: earlier) ∧
      t.input = .answer (.seeding ⟨0, none⟩) (.ok [Entry.name e]) (.calm 0) ∧
      Entry.read e.name = .ok e ∧ e.lockPrefix = "p" ∧ e.sequence = 7 ∧ e.LeavesRoom ⟨"a"⟩ ∧
      t.member.progress = some (.request (.creating ⟨0, none⟩ own contents)) ∧
      Text.toUtf8 e.name < Text.toUtf8 own.name ∧
      Faces (Member.after { lock := l } (older ++ t :: earlier)) t'.input e.name ∧
      ∀ a, a.entry = own → ¬ RankedFirst (Member.after { lock := l } (older ++ t :: earlier)) t'.input a := by
  let e : Entry := ⟨"p", 7, ⟨"b"⟩⟩
  let drawn : Entry := ⟨"p", 8, ⟨"a"⟩⟩
  let late : Instant := 5000000000
  obtain ⟨l, hl, hidle, hdrawn, hlate, hread, hfresh⟩ :
      ∃ l, Lock.create "p" ⟨"a"⟩ .recommended .counter = .ok l ∧ l.state = .idle ∧
        (l.entered [e.name] 0).attempt = some ⟨drawn, 0⟩ ∧
        0 + (⟨0, none⟩ : Window).cut 0 l.timings.settling ≤ late ∧ Entry.read e.name = .ok e ∧
        ((l.entered [e.name] 0).observe [e.name, drawn.name] late).sightings.isStale e.name late
          (l.entered [e.name] 0).timings.timeout = false := by
    refine ⟨⟨"p", ⟨"a"⟩, .recommended, { strategy := .counter }, {}, .idle, none⟩, ?_⟩
    decide +kernel
  have hroom : e.LeavesRoom ⟨"a"⟩ := .inl (by decide)
  obtain ⟨t', older, t, earlier, -, hpoll, hi, -, hi', hlock⟩ :=
    poll_split l none [e.name] [e.name, drawn.name] drawn 0 late { lock := l }
  have h : History Punctual { lock := l } (t' :: older ++ t :: earlier) := by
    rw [← hpoll]
    exact history_poll hidle hdrawn hlate
  have hfaces : Faces (Member.after { lock := l } (older ++ t :: earlier)) t'.input e.name := by
    refine ⟨_, _, _, hi', List.mem_cons_self, ?_⟩
    rw [hlock]
    exact hfresh
  obtain ⟨own, contents, hp, -, -, hbehind, hnever⟩ :=
    queues_behind_listed hl h hi List.mem_cons_self hread rfl
  exact ⟨l, e, t', older, t, earlier, own, contents, hl, h, hi, hread, rfl, rfl, hroom, hp, hbehind.mpr hroom,
    hfaces, hnever hroom [] t' older rfl hfaces⟩

/-- A lock that was shown another's entry with the largest sequence draws that sequence too. Its own entry stands
before the other, and it takes the lock as soon as its settling pause is over, although the other is still listed. -/
theorem overtakes_largest : ∃ l e t' older t earlier a contents,
    Lock.create "p" ⟨"a"⟩ .recommended .counter = .ok l ∧ OwnerId.accepts "a" = true ∧
      History Punctual { lock := l } (t' :: older ++ t :: earlier) ∧
      t.input = .answer (.seeding ⟨0, none⟩) (.ok [Entry.name e]) (.calm 0) ∧
      Entry.read e.name = .ok e ∧ e.lockPrefix = "p" ∧ e.owner ≠ ⟨"a"⟩ ∧
      t.member.progress = some (.request (.creating ⟨0, none⟩ a.entry contents)) ∧
      ¬ Text.toUtf8 e.name < Text.toUtf8 a.entry.name ∧
      Faces (Member.after { lock := l } (older ++ t :: earlier)) t'.input e.name ∧
      RankedFirst (Member.after { lock := l } (older ++ t :: earlier)) t'.input a ∧
      (Member.after { lock := l } (t' :: older ++ t :: earlier)).progress = some (.done .acquired) := by
  let e : Entry := ⟨"p", Sequencer.most, ⟨"b"⟩⟩
  let drawn : Entry := ⟨"p", Sequencer.most, ⟨"a"⟩⟩
  let late : Instant := 5000000000
  have hpre : e.lockPrefix = "p" ∧ drawn.lockPrefix = "p" ∧ e.owner ≠ ⟨"a"⟩ := by decide
  obtain ⟨l, hl, hidle, hdrawn, hlate, hread, hbefore, hfresh, hfirst, hstale⟩ :
      ∃ l, Lock.create "p" ⟨"a"⟩ .recommended .counter = .ok l ∧ l.state = .idle ∧
        (l.entered [e.name] 0).attempt = some ⟨drawn, 0⟩ ∧
        0 + (⟨0, none⟩ : Window).cut 0 l.timings.settling ≤ late ∧ Entry.read e.name = .ok e ∧
        drawn.le e = true ∧
        ((l.entered [e.name] 0).observe [drawn.name, e.name] late).sightings.isStale e.name late
          (l.entered [e.name] 0).timings.timeout = false ∧
        ((l.entered [e.name] 0).observe [drawn.name, e.name] late).standing ⟨drawn, 0⟩ [drawn.name, e.name] late =
          .first ∧
        ((l.entered [e.name] 0).observe [drawn.name, e.name] late).stale drawn [drawn.name, e.name] late = [] := by
    refine ⟨⟨"p", ⟨"a"⟩, .recommended, { strategy := .counter }, {}, .idle, none⟩, ?_⟩
    decide +kernel
  have ho : OwnerId.accepts "a" = true := by
    decide +kernel
  -- From here on the entries are opaque: what is to be computed with their names has been.
  clear_value e drawn late
  obtain ⟨t', older, t, earlier, contents, hpoll, hi, hp, hi', hlock⟩ :=
    poll_split l none [e.name] [drawn.name, e.name] drawn 0 late { lock := l }
  have hend : (Member.after { lock := l } (t' :: older ++ t :: earlier)).progress = some (.done .acquired) := by
    rw [← hpoll, after_poll_of_first hdrawn hfirst hstale]
  refine ⟨l, e, t', older, t, earlier, ⟨drawn, 0⟩, contents, hl, ho, ?_, hi, hread, hpre.1, hpre.2.2, hp, ?_,
    ⟨_, _, _, hi', by simp, ?_⟩, ⟨_, _, _, hi', ?_, ?_⟩, hend⟩
  · rw [← hpoll]
    exact history_poll hidle hdrawn hlate
  · exact (Entry.le_iff_not_toUtf8_lt (hpre.2.1.trans hpre.1.symm)).mp hbefore
  · rw [hlock]
    exact hfresh
  · rw [hlock]
    exact hdrawn
  · rw [hlock]
    exact hfirst

end Member

end StoreLock
