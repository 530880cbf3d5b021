import StoreLock.Proofs.Contest.Basic
import StoreLock.Proofs.Lock.Poll

/-!
# The course of an undisturbed call

What a member does in a contest when nothing disturbs it: it creates its entry behind the queue it is
shown (`exists_enters`), and after its pause it ranks the entry and holds the lock if that comes
first (`exists_wins`). Both are runs of plain steps, and nothing but the member and the store is different
after them. A run in which several members meet is put together from them and from the passing of
time.
-/

namespace StoreLock

namespace Contest

variable {ι : Type} {s : Contest ι} {i : ι}

/-- Whether nobody is about to create an entry. -/
def Quiet (s : Contest ι) : Prop :=
  ∀ i, (s.members i).pending? = none

/-- Where nobody is about to create an entry, everything may happen. -/
lemma Quiet.indivisible (h : Quiet s) (e : Event ι) : Indivisible s e := by
  intro i w entry contents hp
  have hn := h i
  rw [Member.pending?, hp] at hn
  cases hn

/-- A step of a member that is not about to create an entry and does not wake. -/
lemma Plain.of_act {input : Input} (hi : Indivisible s (.act i input)) (hp : input.IsPlain)
    (hc : ∀ e, input.created? = some e → e.sequence ≠ Sequencer.most)
    (hw : ∀ d rest r, input = .wake .elapsed r → (s.members i).progress = some (.pause d rest) →
      (s.members i).since + d ≤ s.now) : Plain s (.act i input) where
  plain := by
    rintro _ _ ⟨⟩
    exact hp
  indivisible := hi
  unsaturated := by
    rintro _ _ entry ⟨⟩
    exact hc entry
  punctual := by
    rintro _ d rest r ⟨⟩
    exact hw d rest r rfl

variable [DecidableEq ι]

/-- The contest after a member has come as far as `m` and the store has become `store`. -/
def after (s : Contest ι) (i : ι) (m : Member) (store : MemoryStore) : Contest ι :=
  { s with store, members := Function.update s.members i m }

lemma put_after (m m' : Member) (store store' : MemoryStore) :
    ({ s.after i m store with store := store' } : Contest ι).put i m' = s.after i m' store' := by
  simp [put, after, Function.update_idem]

lemma Quiet.after (h : Quiet s) {m : Member} (hm : m.pending? = none) (store : MemoryStore) :
    Quiet (s.after i m store) := by
  intro j
  have hs : (s.after i m store).members = Function.update s.members i m := rfl
  by_cases hj : j = i
  · rw [hs, hj, Function.update_self]
    exact hm
  · rw [hs, Function.update_of_ne hj]
    exact h j

/-- A member that is about to create an entry is the only one. -/
lemma Quiet.indivisible_creating (h : Quiet s) {m : Member} {store : MemoryStore} {w : Window}
    {e : Entry} {contents : ByteArray} {answer : Except StoreError Unit} {r : Reading}
    (hp : m.progress = some (.request (.creating w e contents))) :
    Indivisible (s.after i m store) (.act i (.answer (.creating w e contents) answer r)) := by
  intro j w' e' contents' hj
  have hs : (s.after i m store).members = Function.update s.members i m := rfl
  by_cases hji : j = i
  · rw [hji, hs, Function.update_self, hp] at hj
    cases hj
    rw [hji]
    exact ⟨_, _, rfl⟩
  · have hn := h j
    rw [hs, Function.update_of_ne hji] at hj
    rw [Member.pending?, hj] at hn
    cases hn

/-- The store answers a member that has come as far as `m`. -/
lemma Step.served {m m' : Member} {phase : Lock.Phase} {answer : phase.request.Answer}
    {store store' : MemoryStore} (hp : m.progress = some (.request phase))
    (hs : ObjectStore.perform store (s.client i) s.now m.lock.listing phase.request =
      (answer, store'))
    (hm' : Member.ofTurn (m.lock.resume phase answer (.calm s.now)) s.now = m') :
    Step (s.after i m store) (.act i (.answer phase answer (.calm s.now)))
      (s.after i m' store') := by
  have hi : (s.after i m store).members i = m := Function.update_self ..
  rw [← put_after m m' store store', ← hm']
  refine .serve ?_ rfl ?_
  · rw [hi]
    exact hs
  · rw [hi]
    exact .answer hp

lemma Quiet.tick (h : Quiet s) (d : Duration) :
    Reaches Plain s { s with now := s.now + d } := by
  refine .step .refl ⟨?_, h.indivisible _, ?_, ?_⟩ (.tick (d := d))
  · rintro _ _ ⟨⟩
  · rintro _ _ _ ⟨⟩
  · rintro _ _ _ _ ⟨⟩

/-- A run of plain steps that moves one member only, as far as `m`. -/
structure Course (s : Contest ι) (i : ι) (m : Member) (s' : Contest ι) : Prop where
  run : Reaches Plain s s'
  now : s'.now = s.now
  client : s'.client = s.client
  members : s'.members = Function.update s.members i m
  works : s'.store.Works
  lag : s'.store.lag = s.store.lag
  quiet : s'.Quiet

lemma Course.members_self {m : Member} {s' : Contest ι} (c : Course s i m s') :
    s'.members i = m := by
  rw [c.members, Function.update_self]

lemma Course.members_ne {m : Member} {s' : Contest ι} (c : Course s i m s') {j : ι} (h : j ≠ i) :
    s'.members j = s.members j := by
  rw [c.members, Function.update_of_ne h]

/-- A lock that is not taken creates its entry behind the queue it is shown. -/
theorem exists_enters {l : Lock} {e : Entry} (hm : (s.members i).lock = l)
    (hrest : (s.members i).IsResting) (hidle : l.state = .idle) (hw : s.store.Works) (hq : Quiet s)
    (he : (l.entered (s.store.seen (s.client i) s.now l.listing) s.now).attempt = some ⟨e, s.now⟩)
    (hmost : e.sequence ≠ Sequencer.most) :
    ∃ s', Course s i ⟨l.entered (s.store.seen (s.client i) s.now l.listing) s.now,
        some (.pause l.timings.settling ⟨⟨s.now, none⟩⟩), s.now⟩ s' ∧
      ∃ contents, s'.store.objects = MemoryStore.insert
        (s.store.objects.filter fun p => MemoryStore.isKept s.store.lag s.now p.2) e.name
        { contents, writer := s.client i, createdAt := s.now } := by
  obtain ⟨st₁, hlist, hw₁, hl₁, ho₁⟩ := hw.list (s.client i) s.now l.listing
  set listed := s.store.seen (s.client i) s.now l.listing
  set known := { l with state := .acquiring }.observe listed s.now with hknown
  set w : Window := ⟨s.now, none⟩
  set contents := (⟨l.owner.text, e.sequence, 0⟩ : Marker).contents
  have hseq : e = ⟨l.lockPrefix, (known.sequencer.next 0).1, l.owner⟩ := by
    cases he
    rfl
  obtain ⟨st₂, hcreate, hw₂, hl₂, ho₂⟩ := hw₁.create (s.client i) s.now e.name contents
  -- How far the member has come after each of the three steps.
  let m₁ : Member := ⟨{ l with state := .acquiring }, some (.request (.seeding w)), s.now⟩
  let m₂ : Member := ⟨{ known with sequencer := (known.sequencer.next 0).2 },
    some (.request (.creating w e contents)), s.now⟩
  let m₃ : Member := ⟨l.entered listed s.now, some (.pause l.timings.settling ⟨w⟩), s.now⟩
  have h₁ : Step s (.act i (.acquire none (.calm s.now))) (s.after i m₁ s.store) := by
    have hacq : Member.ofTurn (l.acquire none (.calm s.now)) s.now = m₁ := by
      simp [Lock.acquire, hidle, Lock.start, Reading.calm, Member.ofTurn, m₁, w]
    have hn : ¬ (Input.acquire none (.calm s.now)).IsAnswer := id
    rw [← hacq, ← hm]
    exact .act hn rfl (.acquire hrest)
  have h₂ : Step (s.after i m₁ s.store) (.act i (.answer (.seeding w) (.ok listed) (.calm s.now)))
      (s.after i m₂ st₁) := by
    refine .served rfl hlist ?_
    simp [Lock.resume, Lock.register, Reading.calm, Member.ofTurn, m₁, m₂, hseq, hknown, contents]
  have h₃ : Step (s.after i m₂ st₁) (.act i (.answer (.creating w e contents) (.ok ())
      (.calm s.now))) (s.after i m₃ st₂) := by
    refine .served rfl hcreate ?_
    have ht : known.timings = l.timings := by
      simp [hknown]
    simp only [Lock.resume, Lock.pause, Reading.calm, Member.ofTurn, Bool.false_eq_true, if_false,
      m₂, m₃, Lock.entered, ← hknown, ← hseq, ht]
    rfl
  have hq₁ : Quiet (s.after i m₁ s.store) := hq.after rfl _
  have hq₃ : Quiet (s.after i m₃ st₂) := hq.after rfl _
  refine ⟨s.after i m₃ st₂, ⟨?_, rfl, rfl, rfl, hw₂, hl₂.trans hl₁, hq₃⟩, contents, ?_⟩
  · refine .step (.step (.step .refl ?_ h₁) ?_ h₂) ?_ h₃
    · refine .of_act (hq.indivisible _) ⟨rfl, rfl⟩ ?_ ?_
      · rintro _ ⟨⟩
      · rintro _ _ _ ⟨⟩
    · refine .of_act (hq₁.indivisible _) ⟨?_, rfl⟩ ?_ ?_
      · rintro _ ⟨⟩
      · rintro _ ⟨⟩
      · rintro _ _ _ ⟨⟩
    · refine .of_act (hq.indivisible_creating rfl) ⟨?_, rfl⟩ ?_ ?_
      · rintro _ ⟨⟩
      · rintro _ ⟨⟩
        exact hmost
      · rintro _ _ _ ⟨⟩
  · rw [← ho₁]
    exact ho₂

/-- A lock whose entry comes first after its pause is held. -/
theorem exists_wins {l : Lock} {a : Attempt} {d : Duration} {w : Window} {since : Instant}
    (hm : s.members i = ⟨l, some (.pause d ⟨w⟩), since⟩) (ha : l.attempt = some a)
    (hd : since + d ≤ s.now) (hw : s.store.Works) (hq : Quiet s)
    (hfirst : (l.observe (s.store.seen (s.client i) s.now l.listing) s.now).standing a
      (s.store.seen (s.client i) s.now l.listing) s.now = .first)
    (hstale : (l.observe (s.store.seen (s.client i) s.now l.listing) s.now).stale a.entry
      (s.store.seen (s.client i) s.now l.listing) s.now = []) :
    ∃ s', Course s i ⟨l.won (s.store.seen (s.client i) s.now l.listing) s.now,
        some (.done .acquired), s.now⟩ s' ∧
      s'.store.objects =
        s.store.objects.filter fun p => MemoryStore.isKept s.store.lag s.now p.2 := by
  obtain ⟨st₁, hlist, hw₁, hl₁, ho₁⟩ := hw.list (s.client i) s.now l.listing
  set listed := s.store.seen (s.client i) s.now l.listing
  let m₁ : Member := ⟨l, some (.request (.ranking w)), s.now⟩
  let m₂ : Member := ⟨l.won listed s.now, some (.done .acquired), s.now⟩
  have h₁ : Step s (.act i (.wake .elapsed (.calm s.now))) (s.after i m₁ s.store) := by
    have hwake : Member.ofTurn (l.wake ⟨w⟩ .elapsed (.calm s.now)) s.now = m₁ := by
      simp [Lock.wake, ha, Member.ofTurn, m₁]
    rw [← hwake]
    have hst : (s.members i).Step (.wake .elapsed (.calm s.now))
        (.ofTurn ((s.members i).lock.wake ⟨w⟩ .elapsed (.calm s.now)) s.now) :=
      .wake (by rw [hm])
    have hn : ¬ (Input.wake .elapsed (.calm s.now)).IsAnswer := id
    have h := Step.act hn rfl hst
    rw [hm] at h
    exact h
  have h₂ : Step (s.after i m₁ s.store) (.act i (.answer (.ranking w) (.ok listed) (.calm s.now)))
      (s.after i m₂ st₁) := by
    refine .served rfl hlist ?_
    have hjudge : l.judge w listed (.calm s.now) = (l.won listed s.now, .done .acquired) := by
      simp only [Lock.judge, ha, Reading.calm, hfirst, hstale, Lock.reclaim, Lock.conclude,
        Lock.won]
    simp only [Lock.resume, m₁, hjudge]
    rfl
  have hq₁ : Quiet (s.after i m₁ s.store) := hq.after rfl _
  have hq₂ : Quiet (s.after i m₂ st₁) := hq.after rfl _
  refine ⟨s.after i m₂ st₁, ⟨?_, rfl, rfl, rfl, hw₁, hl₁, hq₂⟩, ho₁⟩
  refine .step (.step .refl ?_ h₁) ?_ h₂
  · refine .of_act (hq.indivisible _) ⟨rfl, rfl⟩ ?_ ?_
    · rintro _ ⟨⟩
    · rintro d' rest r - hp
      rw [hm] at hp ⊢
      cases hp
      exact hd
  · refine .of_act (hq₁.indivisible _) ⟨?_, rfl⟩ ?_ ?_
    · rintro _ ⟨⟩
    · rintro _ ⟨⟩
    · rintro _ _ _ ⟨⟩

end Contest

end StoreLock
