import StoreLock.Proofs.Lock.Turn

/-!
# What every step preserves

`Advance` collects what one step can change in what a member knows of the queue: which attempts,
drawn entries, sightings and names to be deleted there can be after it, and where each of them comes
from. It holds of every step of a coherent member (`Step.advance`), and a step leaves a member
coherent (`Step.coherent`). All invariants of runs are proved from these two.
-/

namespace StoreLock.Member

/-- A name is another's stale entry in the listing that an input brings: it is queued, listed, and
was seen first more than the timeout ago. -/
def Condemned (m : Member) (input : Input) (n : String) : Prop :=
  ∃ listed e first, input.listing? = some listed ∧ n ∈ listed ∧ m.lock.queued? n = some e ∧
    (n, first) ∈ m.lock.sightings.firstSeen ∧
    first + m.lock.timings.timeout < input.reading.now

/-- An entry comes first in the listing that an input brings: no other that is queued and listed
comes before it, unless it was seen first more than the timeout ago. -/
def Foremost (m : Member) (input : Input) (own : Entry) : Prop :=
  ∃ listed, input.listing? = some listed ∧
    ∀ n ∈ listed, ∀ e, m.lock.queued? n = some e →
      (∀ first, (n, first) ∈ m.lock.sightings.firstSeen →
        input.reading.now ≤ first + m.lock.timings.timeout) →
      own.le e = true

/-- An entry has been drawn behind the listing that an input brings, and behind every entry that was
drawn before. -/
structure Drawn (m : Member) (input : Input) (m' : Member) (own : Entry) : Prop where
  lockPrefix : own.lockPrefix = m.lock.lockPrefix
  owner : own.owner = m.lock.owner
  last : m'.lock.sequencer.last = some own.sequence
  after_last : ∀ last, m.lock.sequencer.last = some last →
    ∀ q, q ≤ last → q ≠ Sequencer.most → q < own.sequence
  after_listed : ∃ listed, input.listing? = some listed ∧
    ∀ n ∈ listed, ∀ e, m.lock.queued? n = some e →
      e.sequence ≠ Sequencer.most → e.sequence < own.sequence

/-- What one step can do to a member. -/
structure Advance (m : Member) (input : Input) (m' : Member) : Prop where
  lockPrefix : m'.lock.lockPrefix = m.lock.lockPrefix
  owner : m'.lock.owner = m.lock.owner
  timings : m'.lock.timings = m.lock.timings
  last : m'.pending? = none → m'.lock.sequencer.last = m.lock.sequencer.last
  pending : ∀ e, m'.pending? = some e → Drawn m input m' e
  attempt : ∀ a, m'.lock.attempt = some a → m.lock.attempt = some a ∨
    (input.created? = some a.entry ∧ a.createdAt = input.reading.now)
  sighting : ∀ n first, (n, first) ∈ m'.lock.sightings.firstSeen →
    (n, first) ∈ m.lock.sightings.firstSeen ∨
      (first = input.reading.now ∧ ∃ listed, input.listing? = some listed ∧ n ∈ listed)
  shown : ∀ n first listed, (n, first) ∈ m'.lock.sightings.firstSeen →
    input.listing? = some listed → n ∈ listed
  doomed : ∀ n ∈ m'.doomed, n ∈ m.doomed ∨ Condemned m input n ∨
    (m'.lock.attempt = none ∧
      ((∃ a, m.lock.attempt = some a ∧ n = a.entry.name) ∨
        ∃ e, input.created? = some e ∧ n = e.name))
  chosen : ∀ a, m'.Chooses a → m.Chooses a ∨
    (m.lock.attempt = some a ∧ m.IsRanking ∧ Foremost m input a.entry)

variable {m m' : Member} {input : Input}

lemma Step.since (st : Step m input m') : m'.since = input.reading.now := by
  cases st <;> rfl

/-- Only the request that is open is answered. -/
lemma Step.progress_of_answer {phase : Lock.Phase} {answer : phase.request.Answer} {r : Reading}
    (st : Step m (.answer phase answer r) m') : m.progress = some (.request phase) := by
  cases st with
  | answer h => exact h

/-- Only the entry that is being created is told to be created. -/
lemma Step.pending_of_created (st : Step m input m') {e : Entry} (h : input.created? = some e) :
    m.pending? = some e := by
  cases st with
  | @answer phase answer r hp =>
    cases phase with
    | creating w entry contents =>
      cases answer with
      | ok u =>
        cases h
        rw [pending?, hp]
      | error e' => cases h
    | seeding w => cases answer <;> cases h
    | ranking w => cases answer <;> cases h
    | _ => cases h
  | _ => cases h

/-- A call that pauses and follows its own entry after that has slept to the end. -/
lemma Step.elapsed (st : Step m input m') {d : Duration} {rest : Lock.Rest}
    (hp : m.progress = some (.pause d rest)) (hq : m'.IsQueuing) :
    ∃ r, input = .wake .elapsed r := by
  cases st with
  | acquire h =>
    rw [IsResting, hp] at h
    exact h.elim
  | release h =>
    rw [IsResting, hp] at h
    exact h.elim
  | answer h =>
    rw [hp] at h
    cases h
  | @wake d' rest' ended r h =>
    cases ended with
    | elapsed => exact ⟨r, rfl⟩
    | cancelled => exact ((abandon_leads _ _ _).queuing hq).1.elim
  | drop => exact hq.elim

lemma not_isResting {phase : Lock.Phase} (h : m.progress = some (.request phase)) :
    ¬ m.IsResting := by
  rw [IsResting, h]
  exact id

/-- A call that ranks its own entry follows where it stands. -/
lemma IsRanking.isQueuing (h : m.IsRanking) : m.IsQueuing := by
  obtain ⟨w, hp⟩ := h
  rw [IsQueuing, hp]
  trivial

/-- A call that follows its own entry did so before, or its entry has just been created and it is in
its settling pause. -/
lemma Step.queuing (st : Step m input m') (hq : m'.IsQueuing) :
    (m.IsQueuing ∧ ∀ a, m'.lock.attempt = some a → m.lock.attempt = some a) ∨
      ∃ w e b r, input = .answer (.creating w e b) (.ok ()) r ∧
        m'.lock.attempt = some ⟨e, r.now⟩ ∧
        m'.progress = some (.pause (w.cut r.now m.lock.timings.settling) ⟨w⟩) := by
  rcases st.cases with c | ⟨w, listed, r, hp, rfl, rfl⟩ | ⟨w, e, b, r, hp, rfl, rfl⟩ |
    ⟨w, listed, r, hp, rfl, rfl⟩
  · obtain ⟨hq', -⟩ := c.leads.queuing hq
    exact .inl ⟨hq', c.leads.attempt⟩
  · exact hq.elim
  · refine .inr ⟨w, e, b, r, rfl, ?_⟩
    rw [Lock.pause] at hq ⊢
    split at hq
    case isTrue => exact ((abandon_leads _ _ _).queuing hq).1.elim
    case isFalse hc =>
      rw [if_neg hc]
      exact ⟨rfl, rfl⟩
  · refine .inl ⟨IsRanking.isQueuing ⟨w, hp⟩, ?_⟩
    intro a ha
    cases hm : m.lock.attempt with
    | none =>
      rw [Lock.judge, hm] at ha
      have hc := (conclude_leads m.lock w .reclaimed r r.now).attempt a ha
      rw [hm] at hc
      exact hc
    | some b =>
      have hj := (judge_leads w listed r r.now hm).attempt a ha
      rw [Lock.observe_attempt, hm] at hj
      exact hj

/-- A step leaves a member coherent. -/
theorem Step.coherent (st : Step m input m') (hm : m.Coherent) : m'.Coherent := by
  constructor
  · intro hs
    by_cases hheld : m.lock.state = .held
    · -- Nothing but a new call or a drop happens to a lock that is held.
      have hrest := hm.resting hheld
      cases st with
      | acquire =>
        simp only [ofTurn, Lock.acquire, hheld] at hs ⊢
        trivial
      | release =>
        rw [ofTurn, Lock.release, if_pos hheld] at hs
        split at hs <;> cases hs
      | answer hp => exact absurd hrest (not_isResting hp)
      | wake hp =>
        rw [IsResting, hp] at hrest
        exact hrest.elim
      | drop => trivial
    · rcases st.cases with c | ⟨w, listed, r, hp, rfl, rfl⟩ | ⟨w, e, b, r, hp, rfl, rfl⟩ |
        ⟨w, listed, r, hp, rfl, rfl⟩
      · exact (c.leads.resting hs).resolve_left hheld
      · refine absurd ?_ hheld
        simpa [ofTurn, Lock.register] using hs
      · exact ((pause_leads _ _ _ _ _).resting hs).resolve_left hheld
      · obtain ⟨a, ha⟩ := hm.attempt (IsRanking.isQueuing ⟨w, hp⟩)
        exact ((judge_leads w listed r r.now ha).resting hs).resolve_left hheld
  · intro hq
    rcases st.cases with c | ⟨w, listed, r, hp, rfl, rfl⟩ | ⟨w, e, b, r, hp, rfl, rfl⟩ |
      ⟨w, listed, r, hp, rfl, rfl⟩
    · obtain ⟨hq', ha⟩ := c.leads.queuing hq
      rw [ha]
      exact hm.attempt hq'
    · exact hq.elim
    · obtain ⟨-, ha⟩ := (pause_leads _ _ _ _ _).queuing hq
      exact ⟨_, ha⟩
    · obtain ⟨a, ha⟩ := hm.attempt (IsRanking.isQueuing ⟨w, hp⟩)
      obtain ⟨-, ha'⟩ := (judge_leads w listed r r.now ha).queuing hq
      rw [Lock.observe_attempt] at ha'
      rw [ha']
      exact ⟨a, ha⟩

/-- A step that learns nothing from the store adds nothing. -/
lemma Continues.advance (c : Continues m input m') : Advance m input m' where
  lockPrefix := c.leads.lockPrefix
  owner := c.leads.owner
  timings := c.leads.timings
  last _ := by rw [c.leads.sequencer]
  pending e he := by
    rw [c.leads.pending] at he
    cases he
  attempt a ha := .inl (c.leads.attempt a ha)
  sighting n first h := .inl (c.leads.sightings _ h)
  shown n first listed _ h := by
    rw [c.listing] at h
    cases h
  doomed n hn := by
    rcases c.leads.doomed n hn with h | ⟨a, ha, hn', hnone⟩
    · exact .inl h
    · exact .inr (.inr ⟨hnone, .inl ⟨a, ha, hn'⟩⟩)
  chosen a h := .inl ⟨c.leads.attempt a h.1, c.leads.chosen a h⟩

/-- An entry that is drawn comes behind the listing. -/
lemma Draws.advance (d : Draws m input m') : Advance m input m' := by
  obtain ⟨w, listed, r, hp, rfl, rfl⟩ := d
  refine ⟨?_, ?_, ?_, nofun, ?_, ?_, ?_, ?_, nofun, ?_⟩
  · simp [ofTurn, Lock.register]
  · simp [ofTurn, Lock.register]
  · simp [ofTurn, Lock.register]
  · rintro e ⟨⟩
    refine ⟨Lock.observe_lockPrefix, Lock.observe_owner, rfl, ?_, listed, rfl, ?_⟩
    · intro last hl q hq hm
      exact Sequencer.lt_next_of_le_last r.unixMillis (by rw [Lock.observe_last, hl]) hq hm
    · intro n hn e he hm
      exact Lock.lt_next_of_mem_listed r.unixMillis hn he hm
  · intro a ha
    have ha' : (m.lock.observe listed r.now).attempt = some a := ha
    rw [Lock.observe_attempt] at ha'
    exact .inl ha'
  · intro n first h
    obtain ⟨hn, h | rfl⟩ := Lock.mem_sightings_observe h
    · exact .inl h
    · exact .inr ⟨rfl, listed, rfl, hn⟩
  · rintro n first _ h ⟨⟩
    exact (Lock.mem_sightings_observe h).1
  · rintro a ⟨ha, hs⟩
    have ha' : (m.lock.observe listed r.now).attempt = some a := ha
    rw [Lock.observe_attempt] at ha'
    rcases hs with hs | ⟨w', n, rest, h⟩
    · have hs' : (m.lock.observe listed r.now).state = .held := hs
      rw [Lock.observe_state] at hs'
      exact .inl ⟨ha', .inl hs'⟩
    · cases h

/-- An entry that has been created becomes the attempt, or is deleted at once. -/
lemma Creates.advance (c : Creates m input m') (hm : m.Coherent) : Advance m input m' := by
  obtain ⟨w, e, b, r, hp, rfl, rfl⟩ := c
  have h := pause_leads { m.lock with attempt := some ⟨e, r.now⟩ } w m.lock.timings.settling r r.now
  refine ⟨h.lockPrefix, h.owner, h.timings, fun _ => by rw [h.sequencer], ?_, ?_, ?_, nofun, ?_, ?_⟩
  · intro e' he
    rw [h.pending] at he
    cases he
  · intro a ha
    cases h.attempt a ha
    exact .inr ⟨rfl, rfl⟩
  · exact fun n first hn => .inl (h.sightings _ hn)
  · intro n hn
    obtain hn' | ⟨a, ha, rfl, hnone⟩ := h.doomed n hn
    · cases hn'
    · cases ha
      exact .inr (.inr ⟨hnone, .inr ⟨e, rfl, rfl⟩⟩)
  · intro a ha
    -- The lock is not held, since its call is not over.
    obtain hs | hf := h.chosen a ha
    · exact absurd (hm.resting hs) (not_isResting hp)
    · exact hf.elim

/-- An entry that is ranked first comes first among the listed entries that are not condemned. -/
lemma Ranks.advance (k : Ranks m input m') (hm : m.Coherent) : Advance m input m' := by
  obtain ⟨w, listed, r, hp, rfl, rfl⟩ := k
  obtain ⟨a, ha⟩ := hm.attempt (IsRanking.isQueuing ⟨w, hp⟩)
  have h := judge_leads w listed r r.now ha
  -- A name that is to be reclaimed was on record before this listing.
  have old {n : String} (hn : n ∈ (m.lock.observe listed r.now).stale a.entry listed r.now) :
      ∃ first, (n, first) ∈ m.lock.sightings.firstSeen ∧
        first + m.lock.timings.timeout < r.now := by
    obtain ⟨-, -, -, first, hf, hlt⟩ := Lock.mem_stale hn
    rw [Lock.observe_timings] at hlt
    obtain ⟨-, hf | rfl⟩ := Lock.mem_sightings_observe hf
    · exact ⟨first, hf, hlt⟩
    · lia
  refine ⟨?_, ?_, ?_, ?_, ?_, ?_, ?_, ?_, ?_, ?_⟩
  · rw [h.lockPrefix, Lock.observe_lockPrefix]
  · rw [h.owner, Lock.observe_owner]
  · rw [h.timings, Lock.observe_timings]
  · intro _
    rw [h.sequencer, Lock.observe_last]
  · intro e he
    rw [h.pending] at he
    cases he
  · intro b hb
    have hb' := h.attempt b hb
    rw [Lock.observe_attempt] at hb'
    exact .inl hb'
  · intro n first hn
    obtain ⟨hn', h | rfl⟩ := Lock.mem_sightings_observe (h.sightings _ hn)
    · exact .inl h
    · exact .inr ⟨rfl, listed, rfl, hn'⟩
  · rintro n first _ hn ⟨⟩
    exact (Lock.mem_sightings_observe (h.sightings _ hn)).1
  · intro n hn
    obtain hn' | ⟨b, hb, rfl, hnone⟩ := h.doomed n hn
    · obtain ⟨hl, ⟨e, he⟩, -, -⟩ := Lock.mem_stale hn'
      obtain ⟨first, hf, hlt⟩ := old hn'
      rw [Lock.observe_queued?] at he
      exact .inr (.inl ⟨listed, e, first, rfl, hl, he, hf, hlt⟩)
    · rw [Lock.observe_attempt] at hb
      exact .inr (.inr ⟨hnone, .inl ⟨b, hb, rfl⟩⟩)
  · intro b hb
    have hb' := h.attempt b hb.1
    rw [Lock.observe_attempt, ha] at hb'
    cases hb'
    obtain hs | hf := h.chosen a hb
    · exact absurd (hm.resting hs) (not_isResting hp)
    refine .inr ⟨ha, ⟨w, hp⟩, listed, rfl, ?_⟩
    intro n hn e he hfresh
    refine Lock.le_of_standing_first hf hn (by rw [Lock.observe_queued?, he]) ?_
    by_contra hr
    rw [Bool.not_eq_false] at hr
    obtain ⟨first, hf, hlt⟩ := old (List.mem_filter.mpr ⟨hn, hr⟩)
    have hle : r.now ≤ first + m.lock.timings.timeout := hfresh first hf
    lia

/-- What one step of a coherent member can do. -/
theorem Step.advance (st : Step m input m') (hm : m.Coherent) : Advance m input m' := by
  rcases st.cases with c | d | c | k
  · exact c.advance
  · exact d.advance
  · exact c.advance hm
  · exact k.advance hm

end StoreLock.Member
