import StoreLock.Proofs.Contest.Invariant

/-!
# The order of fresh entries

Two members that both come first have fresh entries of which neither showed the other in time. How
far apart the entries can then be is bounded by three lengths: the lag of the store, the `horizon`
within which a listing may miss an entry that is created before the next one, and the `gap` between
that listing and the creation. `InOrder` is the invariant behind it: whoever creates an entry behind
a listing comes behind all entries that are older than the horizon, so two entries stand in the order
of their creation unless they were created close to each other, and an entry comes first only if
those it precedes are no older than the lag.

The settling time has to exceed what a listing may miss (`horizon + gap ≤ settling`). The invariant
does not say how it is kept to: `Settled` is what it needs to know.
-/

namespace StoreLock.Contest

variable {ι : Type} {s s' : Contest ι} {lockPrefix : String}
  {timeout horizon gap settling : Duration} {i : ι} {input : Input}

/-- Whether a member's attempt was made no longer than `timeout` ago. -/
def Fresh (s : Contest ι) (timeout : Duration) (i : ι) (a : Attempt) : Prop :=
  (s.members i).lock.attempt = some a ∧ s.now ≤ a.createdAt + timeout

/-- An entry that is ranked, or comes first, was created at least `settling` ago. -/
def Settled (settling : Duration) (s : Contest ι) : Prop :=
  ∀ i a, (s.members i).lock.attempt = some a →
    (s.members i).IsRanking ∨ (s.members i).Chooses a → a.createdAt + settling ≤ s.now

/-- How the fresh entries of different members stand to each other. -/
structure InOrder (timeout horizon gap settling : Duration) (s : Contest ι) : Prop where
  /-- An entry that is drawn comes behind all that are older than the horizon. -/
  drawn : ∀ i j e b, i ≠ j → (s.members i).pending? = some e → s.Fresh timeout j b →
    b.entry.sequence < e.sequence ∨ (s.members i).since < b.createdAt + horizon
  /-- Entries stand in the order of their creation, unless they were created close together. -/
  created : ∀ i j a b, i ≠ j → s.Fresh timeout i a → s.Fresh timeout j b →
    a.entry.sequence < b.entry.sequence ∨ b.createdAt < a.createdAt + horizon + gap ∨
      b.createdAt ≤ a.createdAt
  /-- An entry that was chosen comes before all that could be listed when it was ranked. -/
  chosen : ∀ i j a b, i ≠ j → s.Fresh timeout i a → s.Fresh timeout j b →
    (s.members j).Chooses b →
    b.entry.le a.entry = true ∨ b.createdAt + settling < a.createdAt + s.store.lag

/-- A fresh attempt was fresh before, or its entry has just been created. -/
lemma Moves.fresh_cases (v : Moves s i input s') (h : Parties lockPrefix timeout s) {j : ι}
    {a : Attempt} (ha : s'.Fresh timeout j a) :
    s.Fresh timeout j a ∨ (j = i ∧ input.created? = some a.entry ∧ a.createdAt = s.now) := by
  obtain ⟨ha, hf⟩ := ha
  rw [v.now] at hf
  exact (v.attempt_cases h ha).imp_left fun ha => ⟨ha, hf⟩

namespace Sound

variable {j : ι} {a : Attempt}

lemma ne_most (h : Sound lockPrefix timeout s) (ha : (s.members j).lock.attempt = some a) :
    a.entry.sequence ≠ Sequencer.most := by
  have hs := (h.attempt j a ha).1
  exact (h.issued j _ _ (knows_attempt ha) (h.read_name hs) hs).ne_most

lemma prefix_eq_of_signs (h : Sound lockPrefix timeout s) {e e' : Entry} {k : ι}
    (he : (s.members j).lock.Signs e) (he' : (s.members k).lock.Signs e') :
    e.lockPrefix = e'.lockPrefix := by
  rw [he.1, he'.1, h.prefix_eq, h.prefix_eq]

lemma queued?_attempt (h : Sound lockPrefix timeout s) (k : ι)
    (ha : (s.members j).lock.attempt = some a) :
    (s.members k).lock.queued? a.entry.name = some a.entry := by
  have hs := (h.attempt j a ha).1
  rw [Lock.queued?_eq_some]
  refine ⟨h.read_name hs, ?_⟩
  rw [hs.1, h.prefix_eq, h.prefix_eq]

/-- Every listing shows the entry of a fresh attempt that was created at least the lag ago. -/
lemma mem_listed (h : Sound lockPrefix timeout s) (v : Moves s i input s') {listed : List String}
    (hl : input.listing? = some listed) (ha : s.Fresh timeout j a)
    (hlag : a.createdAt + s.store.lag ≤ s.now) : a.entry.name ∈ listed := by
  have hs := (h.attempt j a ha.1).1
  refine v.visible listed hl _ _ (h.stands j a ha.1 ha.2) ?_ hlag
  have hp : (s.members i).lock.lockPrefix = a.entry.lockPrefix := by
    rw [hs.1, h.prefix_eq, h.prefix_eq]
  rw [Lock.listing, hp]
  exact Entry.startsWith_listing a.entry

/-- An entry that is drawn comes behind a fresh one that every listing shows. -/
lemma lt_drawn (h : Sound lockPrefix timeout s) (v : Moves s i input s') {m' : Member} {e : Entry}
    (d : Member.Drawn (s.members i) input m' e) (ha : s.Fresh timeout j a)
    (hlag : a.createdAt + s.store.lag ≤ s.now) : a.entry.sequence < e.sequence := by
  obtain ⟨listed, hl, hlt⟩ := d.after_listed
  exact hlt _ (h.mem_listed v hl ha hlag) _ (h.queued?_attempt i ha.1) (h.ne_most ha.1)

/-- An entry that is ranked first comes before a fresh one that every listing shows, since no member
has seen that for longer than the timeout. -/
lemma le_foremost (h : Sound lockPrefix timeout s) (v : Moves s i input s') {own : Entry}
    (f : Member.Foremost (s.members i) input own) (ha : s.Fresh timeout j a)
    (hlag : a.createdAt + s.store.lag ≤ s.now) : own.le a.entry = true := by
  obtain ⟨listed, hl, hle⟩ := f
  refine hle _ (h.mem_listed v hl ha hlag) _ (h.queued?_attempt i ha.1) ?_
  intro first hf
  have hc := h.sighting j a i first ha.1 hf
  have hn := ha.2
  rw [h.timeout_eq, v.reading]
  lia

end Sound

namespace InOrder

/-- The drawn entries stay in order: a new one comes behind the listing, and no entry is created
unnoticed. -/
lemma drawn_step (h : InOrder timeout horizon gap settling s) (sound : Sound lockPrefix timeout s)
    (v : Moves s i input s') (hlag : s.store.lag ≤ horizon)
    (alone : ∀ e, input.created? = some e →
      s.store.lag < horizon ∨ ∀ j, j ≠ i → (s.members j).pending? = none)
    {j k : ι} {e : Entry} {b : Attempt} (hjk : j ≠ k) (he : (s'.members j).pending? = some e)
    (hb : s'.Fresh timeout k b) :
    b.entry.sequence < e.sequence ∨ (s'.members j).since < b.createdAt + horizon := by
  by_cases hj : j = i
  · subst hj
    have d := (v.advance sound.toParties).pending e he
    rcases v.fresh_cases sound.toParties hb with hb | ⟨rfl, -⟩
    · rw [v.step.since, v.reading]
      by_cases hvis : b.createdAt + s.store.lag ≤ s.now
      · exact .inl (sound.lt_drawn v d hb hvis)
      · exact .inr (by lia)
    · exact absurd rfl hjk
  · rw [v.others j hj] at he ⊢
    -- An entry that is created while another is being drawn may escape it, but only for the lag.
    rcases v.fresh_cases sound.toParties hb with hb | ⟨rfl, hc, ht⟩
    · exact h.drawn j k e b hjk he hb
    · rcases alone b.entry hc with hlt | hnone
      · have hle := sound.since j
        exact .inr (by lia)
      · rw [hnone j hj] at he
        cases he

/-- Entries stay in the order of their creation: a new one was drawn at most the gap ago. -/
lemma created_step (h : InOrder timeout horizon gap settling s) (sound : Sound lockPrefix timeout s)
    (v : Moves s i input s') (hg : ∀ e, input.created? = some e →
      s.now ≤ (s.members i).since + gap)
    {j k : ι} {a b : Attempt} (hjk : j ≠ k) (ha : s'.Fresh timeout j a)
    (hb : s'.Fresh timeout k b) :
    a.entry.sequence < b.entry.sequence ∨ b.createdAt < a.createdAt + horizon + gap ∨
      b.createdAt ≤ a.createdAt := by
  -- At most one of the two has been created in this step.
  rcases v.fresh_cases sound.toParties ha with ha | ⟨rfl, -, ht⟩ <;>
    rcases v.fresh_cases sound.toParties hb with hb | ⟨rfl, hc, ht'⟩
  · exact h.created j k a b hjk ha hb
  · rcases h.drawn k j b.entry a hjk.symm (v.step.pending_of_created hc) ha with hlt | hlt
    · exact .inl hlt
    · have hle := hg b.entry hc
      exact .inr (.inl (by lia))
  · have hle := (sound.attempt k b hb.1).2
    exact .inr (.inr (by lia))
  · exact absurd rfl hjk

/-- A chosen entry stays before the others: those that are created later come behind it, because it
has settled. -/
lemma chosen_step (h : InOrder timeout horizon gap settling s) (sound : Sound lockPrefix timeout s)
    (settled : Settled settling s) (v : Moves s i input s')
    (hg : ∀ e, input.created? = some e → s.now ≤ (s.members i).since + gap)
    (hs : horizon + gap ≤ settling) {j k : ι} {a b : Attempt} (hjk : j ≠ k)
    (ha : s'.Fresh timeout j a) (hb : s'.Fresh timeout k b) (hk : (s'.members k).Chooses b) :
    b.entry.le a.entry = true ∨ b.createdAt + settling < a.createdAt + s'.store.lag := by
  rw [v.lag]
  have hnow := hb.2
  rw [v.now] at hnow
  -- Either the entry was chosen before this step, or this step ranks it.
  have before : (s.members k).Chooses b ∨ (k = i ∧ (s.members i).lock.attempt = some b ∧
      (s.members i).IsRanking ∧ (s.members i).Foremost input b.entry) := by
    by_cases hki : k = i
    · subst hki
      exact ((v.advance sound.toParties).chosen b hk).imp_right fun hr => ⟨rfl, hr⟩
    · rw [v.others k hki] at hk
      exact .inl hk
  rcases before with hk | ⟨rfl, hb', hrank, hfirst⟩
  · have hb : s.Fresh timeout k b := ⟨hk.1, hnow⟩
    rcases v.fresh_cases sound.toParties ha with ha | ⟨rfl, hc, ht⟩
    · exact h.chosen j k a b hjk ha hb hk
    · have hset := settled k b hk.1 (.inr hk)
      rcases h.drawn j k a.entry b hjk (v.step.pending_of_created hc) hb with hlt | hlt
      · have hp := sound.prefix_eq_of_signs (sound.attempt k b hk.1).1 (sound.signs_created v hc)
        exact .inl (Entry.le_of_sequence_lt hp hlt)
      · have hle := hg a.entry hc
        lia
  · have hset := settled k b hb' (.inl hrank)
    rcases v.fresh_cases sound.toParties ha with ha | ⟨rfl, -⟩
    · by_cases hvis : a.createdAt + s.store.lag ≤ s.now
      · exact .inl (sound.le_foremost v hfirst ha hvis)
      · exact .inr (by lia)
    · exact absurd rfl hjk

/-- A step of a member preserves the order. -/
theorem moves (h : InOrder timeout horizon gap settling s) (sound : Sound lockPrefix timeout s)
    (settled : Settled settling s) (v : Moves s i input s') (hlag : s.store.lag ≤ horizon)
    (hs : horizon + gap ≤ settling)
    (hg : ∀ e, input.created? = some e → s.now ≤ (s.members i).since + gap)
    (alone : ∀ e, input.created? = some e →
      s.store.lag < horizon ∨ ∀ j, j ≠ i → (s.members j).pending? = none) :
    InOrder timeout horizon gap settling s' where
  drawn _ _ _ _ hjk he hb := h.drawn_step sound v hlag alone hjk he hb
  created _ _ _ _ hjk ha hb := h.created_step sound v hg hjk ha hb
  chosen _ _ _ _ hjk ha hb hk := h.chosen_step sound settled v hg hs hjk ha hb hk

/-- The rest of the world preserves the order. -/
theorem rests (h : InOrder timeout horizon gap settling s) (v : Rests s s') :
    InOrder timeout horizon gap settling s' := by
  have before {j : ι} {a : Attempt} (ha : s'.Fresh timeout j a) : s.Fresh timeout j a := by
    rw [Fresh, v.members] at ha
    exact ⟨ha.1, Nat.le_trans v.now ha.2⟩
  refine ⟨?_, ?_, ?_⟩
  · intro j k e b hjk he hb
    rw [v.members] at he ⊢
    exact h.drawn j k e b hjk he (before hb)
  · intro j k a b hjk ha hb
    exact h.created j k a b hjk (before ha) (before hb)
  · intro j k a b hjk ha hb hk
    rw [v.members] at hk
    rw [v.lag]
    exact h.chosen j k a b hjk (before ha) (before hb) hk

/-- Of two fresh entries that are both chosen, one was ranked before the other could be listed, and
that was created too soon after it to come behind it. -/
theorem overlap (h : InOrder timeout horizon gap settling s) (sound : Sound lockPrefix timeout s)
    (hlag : s.store.lag ≤ settling) {j k : ι} {a b : Attempt} (hjk : j ≠ k)
    (ha : s.Fresh timeout j a) (hb : s.Fresh timeout k b) (hj : (s.members j).Chooses a)
    (hk : (s.members k).Chooses b) :
    (a.createdAt + settling < b.createdAt + s.store.lag ∧
        b.createdAt < a.createdAt + horizon + gap) ∨
      (b.createdAt + settling < a.createdAt + s.store.lag ∧
        a.createdAt < b.createdAt + horizon + gap) := by
  have hsa := (sound.attempt j a ha.1).1
  have hsb := (sound.attempt k b hb.1).1
  have hp := sound.prefix_eq_of_signs hsa hsb
  -- Each of the two was ranked before the other, or too early for the other to be listed.
  rcases h.chosen j k a b hjk ha hb hk with hba | hba <;>
    rcases h.chosen k j b a hjk.symm hb ha hj with hab | hab
  · -- Both come first, so they are one entry, which only one member signs.
    have he := Entry.le_antisymm hab hba
    rw [← he] at hsb
    exact absurd (sound.eq_of_signs hsa hsb) hjk
  · rcases h.created j k a b hjk ha hb with hlt | hlt | hlt
    · exact absurd hba (Entry.not_le_of_sequence_lt hp hlt)
    · exact .inl ⟨hab, hlt⟩
    · lia
  · rcases h.created k j b a hjk.symm hb ha with hlt | hlt | hlt
    · exact absurd hab (Entry.not_le_of_sequence_lt hp.symm hlt)
    · exact .inr ⟨hba, hlt⟩
    · lia
  · lia

end InOrder

end StoreLock.Contest
