import StoreLock.Proofs.Store.Past
import StoreLock.Proofs.Store.Prompt

/-!
# What a client sees of its own changes

There is one record for a name. It holds the last client that created the object and the first that has
deleted it since, and no other. So a client sees what it has created or deleted as long as it stands in
the record (`MemoryStore.own_changes_shown_iff`), and not always otherwise: within the lag, another client
hides an object that this one has created by creating it again, and shows it one that both have deleted
by deleting it first (`MemoryStore.own_changes_missed`).
-/

namespace StoreLock.MemoryStore

variable {s s' : MemoryStore} {past : List Moment} {now time : Instant} {n start : String}
  {client : Nat} {names : List String} {lag : Duration}

/-- What is deleted exists no longer. -/
lemma Gone.not_exists (h : Gone past n client time) : ¬ Exists past n := by
  induction past with
  | nil => exact absurd h not_since_nil
  | cons m past ih =>
    rw [Gone, since_cons] at h
    rw [exists_cons]
    intro he
    rcases h with rfl | ⟨hm, h⟩ <;> rcases he with hc | ⟨hd, he⟩
    · exact Moment.not_creates_of_delete hc
    · exact hd ⟨client, rfl⟩
    · exact hm hc
    · exact ih h he

/-- A client that has created an object, which nobody has deleted since, is shown it if and only if the last
to create it is the client itself or did so at least the lag ago. A client that has deleted an object, which
nobody has created since, is shown it if and only if the first to delete it is another and did so less than
the lag ago, and the creation before had reached the client. -/
theorem own_changes_shown_iff (hr : Run { lag } past s)
    (hs : s.list client now start = (.ok names, s'))
    (ho : InOrder (⟨now, .list client start (.ok names)⟩ :: past))
    (hn : Text.startsWith n start = true) :
    (∀ time, Has past n client time →
      (n ∈ names ↔ ∃ c t, Made past n c t ∧ (c = client ∨ t + lag ≤ now))) ∧
    (∀ time, Gone past n client time →
      (n ∈ names ↔ ∃ c t d t', Made past n c t ∧ (c = client ∨ t + lag ≤ now) ∧
        Lost past n d t' ∧ d ≠ client ∧ now < t' + lag)) := by
  rw [InOrder, List.pairwise_cons] at ho
  have hmem := hr.mem_list_iff (n := n) ho.2 ho.1 hs
  constructor
  · intro time h
    have hexists : Exists past n := ⟨client, time, h⟩
    rw [hmem]
    constructor
    · intro hin
      exact hin.2.1
    · intro hmade
      exact ⟨hn, hmade, .inl hexists⟩
  · intro time h
    rw [hmem]
    constructor
    · intro hin
      obtain ⟨-, ⟨c, t, hmade, hc⟩, he | ⟨d, t', hlost, hd⟩⟩ := hin
      · exact absurd he h.not_exists
      · rw [Reached, not_or, not_le] at hd
        exact ⟨c, t, d, t', hmade, hc, hlost, hd⟩
    · intro hin
      obtain ⟨c, t, d, t', hmade, hc, hlost, hd⟩ := hin
      rw [← not_le, ← not_or] at hd
      exact ⟨hn, ⟨c, t, hmade, hc⟩, .inr ⟨d, t', hlost, hd⟩⟩

/-- A client that creates again what another has created sees it at once. -/
theorem own_changes_shown_of_last : ∃ (past : List Moment) (s s' : MemoryStore) (names : List String),
    Run { lag := 5 } past s ∧ s.list 0 0 "n" = (.ok names, s') ∧
      InOrder (⟨0, .list 0 "n" (.ok names)⟩ :: past) ∧ Text.startsWith "n" "n" = true ∧
      Has past "n" 0 0 ∧ "n" ∈ names := by
  let past : List Moment :=
    [⟨0, .create 0 "n" .empty (.ok ())⟩, ⟨0, .create 1 "n" .empty (.ok ())⟩, ⟨0, .openClient 1⟩]
  have hr : ∃ s, Run { lag := 5 } past s ∧ s.Works := by
    refine ⟨_, .cons (.cons (.cons .nil (.openClient rfl)) (.create rfl)) (.create rfl), rfl, ?_⟩
    intro kind
    cases kind <;> rfl
  obtain ⟨s, hr, hworks⟩ := hr
  obtain ⟨s', hs, -⟩ := hworks.list 0 0 "n"
  have ho : InOrder (⟨0, .list 0 "n" (.ok (s.seen 0 0 "n"))⟩ :: past) := by
    simp [InOrder, past]
  have hn : Text.startsWith "n" "n" = true := by
    decide
  have hhas : Has past "n" 0 0 := since_cons.mpr (.inl ⟨.empty, rfl⟩)
  have hmade : Made past "n" 0 0 := since_cons.mpr (.inl ⟨.empty, rfl⟩)
  exact ⟨past, s, s', _, hr, hs, ho, hn, hhas,
    ((own_changes_shown_iff hr hs ho hn).1 0 hhas).mpr ⟨0, 0, hmade, .inl rfl⟩⟩

/-- A client is not shown what it has created, which nobody has deleted, and is shown what it has deleted,
which nobody has created again. -/
theorem own_changes_missed : ∃ (past : List Moment) (s s' : MemoryStore),
    Run { lag := 100000000 } past s ∧ s.list 0 0 "" = (.ok ["m"], s') ∧
      InOrder (⟨0, .list 0 "" (.ok ["m"])⟩ :: past) ∧
      (Has past "n" 0 0 ∧ Text.startsWith "n" "" = true ∧ "n" ∉ ["m"]) ∧
      (Gone past "m" 0 0 ∧ "m" ∈ ["m"]) := by
  let past : List Moment :=
    [⟨0, .delete 0 "m" (.ok ())⟩, ⟨0, .delete 1 "m" (.ok ())⟩, ⟨0, .create 0 "m" .empty (.ok ())⟩,
      ⟨0, .create 1 "n" .empty (.ok ())⟩, ⟨0, .create 0 "n" .empty (.ok ())⟩, ⟨0, .openClient 1⟩]
  have hr : ∃ s, Run { lag := 100000000 } past s ∧ s.objects =
      [("m", ⟨.empty, 0, 0, some (1, 0)⟩), ("n", ⟨.empty, 1, 0, none⟩)] ∧
        s.lag = 100000000 ∧ s.Works := by
    refine ⟨_, .cons (.cons (.cons (.cons (.cons (.cons .nil (.openClient rfl)) (.create rfl))
      (.create rfl)) (.create rfl)) (.delete rfl)) (.delete rfl), ?_, rfl, rfl, ?_⟩
    · rfl
    · intro kind
      cases kind <;> rfl
  obtain ⟨s, hr, hobjects, hlag, hworks⟩ := hr
  obtain ⟨s', hs, -⟩ := hworks.list 0 0 ""
  have hseen : s.seen 0 0 "" = ["m"] := by
    rw [seen, hobjects, hlag]
    decide
  rw [hseen] at hs
  have ho : InOrder (⟨0, .list 0 "" (.ok ["m"])⟩ :: past) := by
    simp [InOrder, past]
  have hhas : Has past "n" 0 0 := by
    refine ⟨past.take 4, _, [⟨0, .openClient 1⟩], rfl, ⟨.empty, rfl⟩, ?_⟩
    intro m hm
    simp only [past, List.take_succ_cons, List.take_zero, List.mem_cons, List.not_mem_nil, or_false] at hm
    rcases hm with rfl | rfl | rfl | rfl <;> simp [Moment.Deletes]
  have hgone : Gone past "m" 0 0 := since_cons.mpr (.inl rfl)
  exact ⟨past, s, s', hr, hs, ho, ⟨hhas, by decide, by decide⟩, hgone, by decide⟩

end StoreLock.MemoryStore
