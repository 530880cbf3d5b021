import StoreLock.Proofs.Contest.Move

/-!
# What holds throughout a contest

`Sound` is what the members know of each other's entries at every time. Its centre is `issued`: every
name of a member's that is known anywhere carries a sequence which that member has drawn already, so
the entry it creates next has a name that nobody knows (`Sound.not_knows`). Hence nobody is deleting
a new entry or has seen it before it was created, which makes the object of a fresh attempt stand
(`stands`): another member deletes it only after it has seen it for longer than the timeout
(`doomed`).

Each field is preserved for a reason of its own, so each has a lemma for a step of a member. The
members differ in their owners, which is why the name of an entry tells whose it is (`eq_of_name`).
-/

namespace StoreLock

/-- Whether a member has drawn this sequence, and an entry that it is creating comes behind it. -/
structure Member.Issued (m : Member) (q : UInt64) : Prop where
  ne_most : q ≠ Sequencer.most
  last : ∃ last, m.lock.sequencer.last = some last ∧ q ≤ last
  pending : ∀ e, m.pending? = some e → q < e.sequence

namespace Contest

variable {ι : Type} {s s' : Contest ι} {lockPrefix : String} {timeout : Duration}

/-- Whether a name is known anywhere: to the store, or to a member that has seen it, is deleting it
or has created it. -/
def Knows (s : Contest ι) (n : String) : Prop :=
  s.store.OnRecord n ∨ ∃ i,
    (∃ first, (n, first) ∈ (s.members i).lock.sightings.firstSeen) ∨
    n ∈ (s.members i).doomed ∨
    ∃ a, (s.members i).lock.attempt = some a ∧ n = a.entry.name

/-- Who competes, which no step changes. -/
structure Parties (lockPrefix : String) (timeout : Duration) (s : Contest ι) : Prop where
  coherent : ∀ i, (s.members i).Coherent
  prefix_eq : ∀ i, (s.members i).lock.lockPrefix = lockPrefix
  prefix_ne : ∀ i, (s.members i).lock.lockPrefix ≠ ""
  timeout_eq : ∀ i, (s.members i).lock.timings.timeout = timeout
  accepted : ∀ i, OwnerId.accepts (s.members i).lock.owner.text = true
  owner : ∀ i j, (s.members i).lock.owner = (s.members j).lock.owner → i = j

/-- What holds at every time of a run. -/
structure Sound (lockPrefix : String) (timeout : Duration) (s : Contest ι) : Prop
    extends Parties lockPrefix timeout s where
  since : ∀ i, (s.members i).since ≤ s.now
  attempt : ∀ i a, (s.members i).lock.attempt = some a →
    (s.members i).lock.Signs a.entry ∧ a.createdAt ≤ s.now
  pending : ∀ i e, (s.members i).pending? = some e →
    (s.members i).lock.Signs e ∧ (s.members i).lock.sequencer.last = some e.sequence
  issued : ∀ i n e, s.Knows n → Entry.read n = .ok e → (s.members i).lock.Signs e →
    (s.members i).Issued e.sequence
  stands : ∀ i a, (s.members i).lock.attempt = some a → s.now ≤ a.createdAt + timeout →
    s.store.HasObject a.entry.name a.createdAt
  sighting : ∀ i a j first, (s.members i).lock.attempt = some a →
    (a.entry.name, first) ∈ (s.members j).lock.sightings.firstSeen → a.createdAt ≤ first
  doomed : ∀ i a j, (s.members i).lock.attempt = some a →
    a.entry.name ∈ (s.members j).doomed → a.createdAt + timeout < s.now

namespace Parties

variable {i j : ι} {e e' : Entry}

lemma proper (h : Parties lockPrefix timeout s) (he : (s.members i).lock.Signs e) : e.Proper where
  lockPrefix := by
    rw [he.1]
    exact h.prefix_ne i
  owner := by
    rw [he.2]
    exact h.accepted i

lemma read_name (h : Parties lockPrefix timeout s) (he : (s.members i).lock.Signs e) :
    Entry.read e.name = .ok e :=
  Entry.read_name (h.proper he)

/-- Two members that sign one entry are one. -/
lemma eq_of_signs (h : Parties lockPrefix timeout s) (hi : (s.members i).lock.Signs e)
    (hj : (s.members j).lock.Signs e) : i = j :=
  h.owner i j (hi.2.symm.trans hj.2)

/-- Entries of one name are one, and so are the members that sign them. -/
lemma eq_of_name (h : Parties lockPrefix timeout s) (hi : (s.members i).lock.Signs e)
    (hj : (s.members j).lock.Signs e') (hn : e.name = e'.name) : e = e' ∧ i = j := by
  have hr := h.read_name hi
  rw [hn] at hr
  obtain rfl := Entry.eq_of_read hr (h.read_name hj)
  exact ⟨rfl, h.eq_of_signs hi hj⟩

end Parties

end Contest

namespace Member

variable {m m' : Member} {input : Input} {q : UInt64}

lemma Advance.signs (h : Advance m input m') (e : Entry) : m'.lock.Signs e ↔ m.lock.Signs e := by
  rw [Lock.Signs, Lock.Signs, h.lockPrefix, h.owner]

/-- Once an entry has been created, none is being created. -/
lemma Advance.pending_of_created (h : Advance m input m') {e : Entry}
    (hc : input.created? = some e) : m'.pending? = none := by
  cases hp : m'.pending? with
  | none => rfl
  | some e' =>
    obtain ⟨listed, hl, -⟩ := (h.pending e' hp).after_listed
    cases input with
    | answer phase answer r =>
      cases phase with
      | creating w entry contents => cases hl
      | seeding w => cases answer <;> cases hc
      | ranking w => cases answer <;> cases hc
      | _ => cases hc
    | _ => cases hc

/-- What a member has drawn stays drawn, and what it draws comes behind it. -/
lemma Advance.issued (h : Advance m input m') (hq : m.Issued q) : m'.Issued q := by
  obtain ⟨hm, ⟨last, hl, hle⟩, -⟩ := hq
  cases hp : m'.pending? with
  | none =>
    refine ⟨hm, ⟨last, ?_, hle⟩, ?_⟩
    · rw [h.last hp, hl]
    · intro e he
      rw [hp] at he
      cases he
  | some e =>
    have d := h.pending e hp
    have hlt := d.after_last last hl q hle hm
    refine ⟨hm, ⟨e.sequence, d.last, UInt64.le_of_lt hlt⟩, ?_⟩
    intro e' he
    rw [hp] at he
    cases he
    exact hlt

end Member

namespace Contest

variable {ι : Type} {s s' : Contest ι} {lockPrefix : String} {timeout : Duration}
  {i : ι} {input : Input}

namespace Moves

lemma advance (v : Moves s i input s') (h : Parties lockPrefix timeout s) :
    (s.members i).Advance input (s'.members i) :=
  v.step.advance (h.coherent i)

lemma signs (v : Moves s i input s') (h : Parties lockPrefix timeout s) (j : ι) (e : Entry) :
    (s'.members j).lock.Signs e ↔ (s.members j).lock.Signs e := by
  by_cases hj : j = i
  · rw [hj]
    exact (v.advance h).signs e
  · rw [v.others j hj]

/-- The members stay who they are. -/
lemma parties (v : Moves s i input s') (h : Parties lockPrefix timeout s) :
    Parties lockPrefix timeout s' := by
  have same (j : ι) : (s'.members j).lock.lockPrefix = (s.members j).lock.lockPrefix ∧
      (s'.members j).lock.timings = (s.members j).lock.timings ∧
      (s'.members j).lock.owner = (s.members j).lock.owner := by
    by_cases hj : j = i
    · rw [hj]
      have ad := v.advance h
      exact ⟨ad.lockPrefix, ad.timings, ad.owner⟩
    · rw [v.others j hj]
      exact ⟨rfl, rfl, rfl⟩
  refine ⟨?_, ?_, ?_, ?_, ?_, ?_⟩
  · intro j
    by_cases hj : j = i
    · rw [hj]
      exact v.step.coherent (h.coherent i)
    · rw [v.others j hj]
      exact h.coherent j
  · intro j
    rw [(same j).1]
    exact h.prefix_eq j
  · intro j
    rw [(same j).1]
    exact h.prefix_ne j
  · intro j
    rw [(same j).2.1]
    exact h.timeout_eq j
  · intro j
    rw [(same j).2.2]
    exact h.accepted j
  · intro j k
    rw [(same j).2.2, (same k).2.2]
    exact h.owner j k

/-- An attempt was there before, or its entry has just been created. -/
lemma attempt_cases (v : Moves s i input s') (h : Parties lockPrefix timeout s) {j : ι}
    {a : Attempt} (ha : (s'.members j).lock.attempt = some a) :
    (s.members j).lock.attempt = some a ∨
      (j = i ∧ input.created? = some a.entry ∧ a.createdAt = s.now) := by
  by_cases hj : j = i
  · rw [hj] at ha ⊢
    have hn := v.reading
    rcases (v.advance h).attempt a ha with ha | ⟨hc, ht⟩
    · exact .inl ha
    · exact .inr ⟨rfl, hc, ht.trans hn⟩
  · rw [v.others j hj] at ha
    exact .inl ha

/-- A sighting was there before, or its name is on record. -/
lemma sighting_cases (v : Moves s i input s') (h : Parties lockPrefix timeout s) {j : ι}
    {n : String} {first : Instant}
    (hn : (n, first) ∈ (s'.members j).lock.sightings.firstSeen) :
    (n, first) ∈ (s.members j).lock.sightings.firstSeen ∨
      (first = s.now ∧ s.store.OnRecord n) := by
  by_cases hj : j = i
  · rw [hj] at hn ⊢
    rcases (v.advance h).sighting n first hn with hn | ⟨ht, listed, hl, hm⟩
    · exact .inl hn
    · exact .inr ⟨ht.trans v.reading, v.listed listed hl n hm⟩
  · rw [v.others j hj] at hn
    exact .inl hn

/-- A name that is being deleted was so before, or a member has seen it for longer than the timeout,
or it is that of an attempt which is over. -/
lemma doomed_cases (v : Moves s i input s') (h : Parties lockPrefix timeout s) {j : ι} {n : String}
    (hn : n ∈ (s'.members j).doomed) :
    n ∈ (s.members j).doomed ∨
      (∃ first, (n, first) ∈ (s.members j).lock.sightings.firstSeen ∧ first + timeout < s.now) ∨
      (j = i ∧ (s'.members i).lock.attempt = none ∧
        ((∃ a, (s.members i).lock.attempt = some a ∧ n = a.entry.name) ∨
          ∃ e, input.created? = some e ∧ n = e.name)) := by
  by_cases hj : j = i
  · rw [hj] at hn ⊢
    rcases (v.advance h).doomed n hn with hn | ⟨listed, e, first, -, -, -, hf, hlt⟩ | hn
    · exact .inl hn
    · rw [h.timeout_eq i, v.reading] at hlt
      exact .inr (.inl ⟨first, hf, hlt⟩)
    · exact .inr (.inr ⟨rfl, hn⟩)
  · rw [v.others j hj] at hn
    exact .inl hn

/-- A step adds at most the name of a created entry to what is known. -/
lemma knows_cases (v : Moves s i input s') (h : Parties lockPrefix timeout s) {n : String}
    (hn : s'.Knows n) : s.Knows n ∨ ∃ e, input.created? = some e ∧ n = e.name := by
  rcases hn with hn | ⟨j, ⟨first, hn⟩ | hn | ⟨a, ha, rfl⟩⟩
  · exact (v.onRecord n hn).imp_left .inl
  · rcases v.sighting_cases h hn with hn | ⟨-, hn⟩
    · exact .inl (.inr ⟨j, .inl ⟨first, hn⟩⟩)
    · exact .inl (.inl hn)
  · rcases v.doomed_cases h hn with hn | ⟨first, hn, -⟩ | ⟨-, -, hn | hn⟩
    · exact .inl (.inr ⟨j, .inr (.inl hn)⟩)
    · exact .inl (.inr ⟨j, .inl ⟨first, hn⟩⟩)
    · exact .inl (.inr ⟨i, .inr (.inr hn)⟩)
    · exact .inr hn
  · rcases v.attempt_cases h ha with ha | ⟨-, hc, -⟩
    · exact .inl (.inr ⟨j, .inr (.inr ⟨a, ha, rfl⟩)⟩)
    · exact .inr ⟨a.entry, hc, rfl⟩

end Moves

namespace Sound

variable {j : ι} {n : String}

lemma knows_attempt {a : Attempt} (ha : (s.members j).lock.attempt = some a) :
    s.Knows a.entry.name :=
  .inr ⟨j, .inr (.inr ⟨a, ha, rfl⟩)⟩

lemma knows_sighting {first : Instant}
    (hn : (n, first) ∈ (s.members j).lock.sightings.firstSeen) : s.Knows n :=
  .inr ⟨j, .inl ⟨first, hn⟩⟩

lemma knows_doomed (hn : n ∈ (s.members j).doomed) : s.Knows n :=
  .inr ⟨j, .inr (.inl hn)⟩

/-- An entry that is being created is the member's own. -/
lemma signs_created (h : Sound lockPrefix timeout s) (v : Moves s i input s') {e : Entry}
    (hc : input.created? = some e) : (s.members i).lock.Signs e :=
  (h.pending i e (v.step.pending_of_created hc)).1

/-- Nobody knows the name of an entry before it is created. -/
theorem not_knows (h : Sound lockPrefix timeout s) (v : Moves s i input s') {e : Entry}
    (hc : input.created? = some e) : ¬ s.Knows e.name := by
  intro hk
  have hs := h.signs_created v hc
  have hi := h.issued i e.name e hk (h.read_name hs) hs
  have hlt := hi.pending e (v.step.pending_of_created hc)
  exact UInt64.lt_irrefl _ hlt

/-- What was issued stays issued, and a created entry is. -/
lemma issued_step (h : Sound lockPrefix timeout s) (v : Moves s i input s')
    (hm : ∀ e, input.created? = some e → e.sequence ≠ Sequencer.most) {e : Entry}
    (hn : s'.Knows n) (hr : Entry.read n = .ok e) (hs : (s'.members j).lock.Signs e) :
    (s'.members j).Issued e.sequence := by
  rw [v.signs h.toParties] at hs
  -- The name was known before, or it is that of the created entry, which was drawn last.
  rcases v.knows_cases h.toParties hn with hn | ⟨e', hc, rfl⟩
  · have hi := h.issued j n e hn hr hs
    by_cases hj : j = i
    · rw [hj] at hi ⊢
      exact (v.advance h.toParties).issued hi
    · rw [v.others j hj]
      exact hi
  · have hs' := h.signs_created v hc
    obtain rfl := Entry.eq_of_read hr (h.read_name hs')
    obtain rfl := h.eq_of_signs hs hs'
    have ad := v.advance h.toParties
    have hp := ad.pending_of_created hc
    refine ⟨hm e hc, ⟨e.sequence, ?_, UInt64.le_refl _⟩, ?_⟩
    · rw [ad.last hp]
      exact (h.pending j e (v.step.pending_of_created hc)).2
    · intro e' he
      rw [hp] at he
      cases he

/-- The object of a fresh attempt stands: nobody deletes it yet, and nobody creates another of its
name. -/
lemma stands_step (h : Sound lockPrefix timeout s) (v : Moves s i input s') {a : Attempt}
    (ha : (s'.members j).lock.attempt = some a) (hf : s'.now ≤ a.createdAt + timeout) :
    s'.store.HasObject a.entry.name a.createdAt := by
  rcases v.attempt_cases h.toParties ha with ha | ⟨-, hc, ht⟩
  · rw [v.now] at hf
    -- If the object were gone, the member would be deleting it or creating another of its name.
    rcases v.hasObject _ _ (h.stands j a ha hf) with ho | hd | ⟨e, hc, he⟩
    · exact ho
    · have hlt := h.doomed j a i ha hd
      lia
    · refine absurd ?_ (h.not_knows v hc)
      rw [← he]
      exact knows_attempt ha
  · rw [ht]
    exact v.created a.entry hc

/-- Nobody has seen the entry of an attempt before it was created. -/
lemma sighting_step (h : Sound lockPrefix timeout s) (v : Moves s i input s') {k : ι} {a : Attempt}
    {first : Instant} (ha : (s'.members j).lock.attempt = some a)
    (hn : (a.entry.name, first) ∈ (s'.members k).lock.sightings.firstSeen) :
    a.createdAt ≤ first := by
  rcases v.attempt_cases h.toParties ha with ha | ⟨-, hc, ht⟩ <;>
    rcases v.sighting_cases h.toParties hn with hn | ⟨hnow, -⟩
  · exact h.sighting j a k first ha hn
  · have hle := (h.attempt j a ha).2
    lia
  · exact absurd (knows_sighting hn) (h.not_knows v hc)
  · lia

/-- The entry of an attempt is deleted only if the attempt is no longer fresh. -/
lemma doomed_step (h : Sound lockPrefix timeout s) (v : Moves s i input s') {k : ι} {a : Attempt}
    (ha : (s'.members j).lock.attempt = some a) (hn : a.entry.name ∈ (s'.members k).doomed) :
    a.createdAt + timeout < s'.now := by
  rw [v.now]
  rcases v.attempt_cases h.toParties ha with ha' | ⟨-, hc, -⟩
  · -- An attempt that is over was another one, since its entry had another name.
    have ended {b : Attempt} (hb : (s.members i).lock.attempt = some b)
        (hnone : (s'.members i).lock.attempt = none) : a.entry.name ≠ b.entry.name := by
      intro he
      obtain ⟨-, rfl⟩ := h.eq_of_name (h.attempt j a ha').1 (h.attempt i b hb).1 he
      rw [hnone] at ha
      cases ha
    rcases v.doomed_cases h.toParties hn with hn | ⟨first, hf, hlt⟩ | ⟨-, hnone, hn⟩
    · exact h.doomed j a k ha' hn
    · have hle := h.sighting j a k first ha' hf
      lia
    · rcases hn with ⟨b, hb, he⟩ | ⟨e, hc, he⟩
      · exact absurd he (ended hb hnone)
      · refine absurd ?_ (h.not_knows v hc)
        rw [← he]
        exact knows_attempt ha'
  · rcases v.doomed_cases h.toParties hn with hn | ⟨first, hf, -⟩ | ⟨-, hnone, hn⟩
    · exact absurd (knows_doomed hn) (h.not_knows v hc)
    · exact absurd (knows_sighting hf) (h.not_knows v hc)
    · rcases v.attempt_cases h.toParties ha with ha' | ⟨rfl, -, -⟩
      · exact absurd (knows_attempt ha') (h.not_knows v hc)
      · rw [hnone] at ha
        cases ha

/-- A step of a member preserves what holds. -/
lemma moves (h : Sound lockPrefix timeout s) (v : Moves s i input s')
    (hm : ∀ e, input.created? = some e → e.sequence ≠ Sequencer.most) :
    Sound lockPrefix timeout s' where
  toParties := v.parties h.toParties
  since j := by
    rw [v.now]
    by_cases hj : j = i
    · rw [hj, v.step.since, v.reading]
    · rw [v.others j hj]
      exact h.since j
  attempt j a ha := by
    rw [v.signs h.toParties, v.now]
    rcases v.attempt_cases h.toParties ha with ha | ⟨rfl, hc, ht⟩
    · exact h.attempt j a ha
    · exact ⟨h.signs_created v hc, by rw [ht]⟩
  pending j e he := by
    rw [v.signs h.toParties]
    by_cases hj : j = i
    · rw [hj] at he ⊢
      have d := (v.advance h.toParties).pending e he
      exact ⟨⟨d.lockPrefix, d.owner⟩, d.last⟩
    · rw [v.others j hj] at he ⊢
      exact h.pending j e he
  issued _ _ _ hn hr hs := h.issued_step v hm hn hr hs
  stands _ _ ha hf := h.stands_step v ha hf
  sighting _ _ _ _ ha hn := h.sighting_step v ha hn
  doomed _ _ _ ha hn := h.doomed_step v ha hn

/-- The rest of the world preserves what holds. -/
lemma rests (h : Sound lockPrefix timeout s) (v : Rests s s') : Sound lockPrefix timeout s' := by
  have hm := v.members
  have hnow := v.now
  refine ⟨⟨?_, ?_, ?_, ?_, ?_, ?_⟩, ?_, ?_, ?_, ?_, ?_, ?_, ?_⟩
  · rw [hm]
    exact h.coherent
  · rw [hm]
    exact h.prefix_eq
  · rw [hm]
    exact h.prefix_ne
  · rw [hm]
    exact h.timeout_eq
  · rw [hm]
    exact h.accepted
  · rw [hm]
    exact h.owner
  · rw [hm]
    exact fun j => Nat.le_trans (h.since j) hnow
  · rw [hm]
    exact fun j a ha => (h.attempt j a ha).imp_right fun hle => Nat.le_trans hle hnow
  · rw [hm]
    exact h.pending
  · intro j n e hn hr hs
    rw [Knows, hm] at hn
    rw [hm] at hs ⊢
    rcases hn with hn | hn
    · rcases v.onRecord n hn with hn | hn
      · exact h.issued j n e (.inl hn) hr hs
      · exact absurd ⟨e, hr, hs⟩ (hn j)
    · exact h.issued j n e (.inr hn) hr hs
  · rw [hm]
    intro j a ha hf
    have hs := (h.attempt j a ha).1
    refine v.hasObject j _ _ ⟨a.entry, h.read_name hs, hs⟩ ?_
    exact h.stands j a ha (Nat.le_trans hnow hf)
  · rw [hm]
    exact h.sighting
  · rw [hm]
    exact fun j a k ha hn => Nat.lt_of_lt_of_le (h.doomed j a k ha hn) hnow

end Sound

namespace Opening

/-- Every member of an opening is a new lock. -/
lemma new (o : Opening lockPrefix timeout s) (i : ι) : ∃ owner timings strategy,
    OwnerId.accepts owner.text = true ∧ timings.timeout = timeout ∧ lockPrefix ≠ "" ∧
      s.members i = { lock := { lockPrefix, owner, timings, sequencer := { strategy } } } := by
  obtain ⟨owner, timings, strategy, lock, ha, ht, hc, hm⟩ := o.member i
  obtain ⟨rfl, hp, -⟩ := Lock.eq_of_create hc
  exact ⟨owner, timings, strategy, ha, ht, hp, hm⟩

lemma attempt_eq (o : Opening lockPrefix timeout s) (i : ι) :
    (s.members i).lock.attempt = none := by
  obtain ⟨owner, timings, strategy, -, -, -, hm⟩ := o.new i
  rw [hm]

lemma pending?_eq (o : Opening lockPrefix timeout s) (i : ι) : (s.members i).pending? = none := by
  obtain ⟨owner, timings, strategy, -, -, -, hm⟩ := o.new i
  rw [hm]
  rfl

/-- Before any call only the store knows names. -/
lemma onRecord_of_knows (o : Opening lockPrefix timeout s) {n : String} (h : s.Knows n) :
    s.store.OnRecord n := by
  rcases h with h | ⟨i, h⟩
  · exact h
  · obtain ⟨owner, timings, strategy, -, -, -, hm⟩ := o.new i
    rw [hm] at h
    rcases h with ⟨first, h⟩ | h | ⟨a, h, -⟩ <;> cases h

/-- A contest before any call is sound. -/
theorem sound (o : Opening lockPrefix timeout s) : Sound lockPrefix timeout s := by
  have none {i : ι} {a : Attempt} (ha : (s.members i).lock.attempt = some a) : False := by
    rw [o.attempt_eq] at ha
    cases ha
  refine ⟨⟨?_, ?_, ?_, ?_, ?_, o.owner⟩, ?_, fun i a ha => (none ha).elim, ?_, ?_,
    fun i a ha => (none ha).elim, fun i a j f ha => (none ha).elim, fun i a j ha => (none ha).elim⟩
  · intro i
    obtain ⟨owner, timings, strategy, -, -, -, hm⟩ := o.new i
    rw [hm]
    exact ⟨nofun, nofun⟩
  · intro i
    obtain ⟨owner, timings, strategy, -, -, -, hm⟩ := o.new i
    rw [hm]
  · intro i
    obtain ⟨owner, timings, strategy, -, -, hp, hm⟩ := o.new i
    rw [hm]
    exact hp
  · intro i
    obtain ⟨owner, timings, strategy, -, ht, -, hm⟩ := o.new i
    rw [hm]
    exact ht
  · intro i
    obtain ⟨owner, timings, strategy, ha, -, -, hm⟩ := o.new i
    rw [hm]
    exact ha
  · intro i
    obtain ⟨owner, timings, strategy, -, -, -, hm⟩ := o.new i
    rw [hm]
    exact Nat.zero_le _
  · intro i e he
    rw [o.pending?_eq] at he
    cases he
  · intro i n e hn hr hs
    exact absurd ⟨e, hr, hs⟩ (o.store i n (o.onRecord_of_knows hn))

end Opening

/-- Every step preserves what holds, as long as no sequence is the largest. -/
theorem Sound.step [DecidableEq ι] {e : Event ι} (h : Sound lockPrefix timeout s)
    (hu : Unsaturated s e) (st : Step s e s') : Sound lockPrefix timeout s' := by
  rcases st.cases with ⟨i, input, rfl, v⟩ | ⟨-, v⟩
  · exact h.moves v fun entry hc => hu i input entry rfl hc
  · exact h.rests v

end Contest

end StoreLock
