import StoreLock.Proofs.Contest.Course
import StoreLock.Proofs.Contest.Timing

/-!
# Two rivals

Two locks of one prefix with clients of their own, in a store that is empty and works. `rivals` is
where they begin. Started a while apart they may both hold the lock: if neither is shown the other's
entry before it draws its sequence, both draw the same one, and the later of the two comes first by
its owner. It is enough that the earlier one is not shown the later entry when it ranks its own
(`exists_both_hold`).
-/

namespace StoreLock.Contest

/-- The new lock of one of the two; the first has the larger owner. -/
def rival (t : Timings) (i : Bool) : Lock :=
  { lockPrefix := "p"
    owner := ⟨if i then "b" else "a"⟩
    timings := t
    sequencer := { strategy := .counter } }

/-- The two locks before any call. -/
def rivals (lag : Duration) (t : Timings) : Contest Bool where
  now := 0
  store := { lag }
  client i := if i then 0 else 1
  members i := { lock := rival t i }

/-- The entry that a rival draws when it is shown none. -/
def rivalEntry (i : Bool) : Entry :=
  ⟨"p", 0, ⟨if i then "b" else "a"⟩⟩

variable {lag : Duration} {t : Timings}

lemma accepts_rival (i : Bool) : OwnerId.accepts (rival t i).owner.text = true := by
  cases i with
  | false =>
    show OwnerId.accepts "a" = true
    decide +kernel
  | true =>
    show OwnerId.accepts "b" = true
    decide +kernel

/-- Where the rivals begin is a contest before any call. -/
theorem opening_rivals (ht : t.check = .ok ()) : Opening "p" t.timeout (rivals lag t) where
  member i := by
    refine ⟨(rival t i).owner, t, .counter, rival t i, accepts_rival i, rfl, ?_, rfl⟩
    have hp : checkPrefix "p" = .ok () := by decide +kernel
    rw [Lock.create, hp, ht]
    rfl
  owner i j h := by
    cases i <;> cases j <;> simp [rivals, rival] at h ⊢
  store i name := by
    rintro ⟨o, ho⟩
    cases ho

lemma uniform_rivals : Uniform t (rivals lag t) :=
  fun _ => rfl

lemma read_rivalEntry (i : Bool) : Entry.read (rivalEntry i).name = .ok (rivalEntry i) := by
  refine Entry.read_name ⟨by simp [rivalEntry], ?_⟩
  exact accepts_rival (t := .recommended) i

lemma name_rivalEntry_inj {i j : Bool} (h : (rivalEntry i).name = (rivalEntry j).name) :
    i = j := by
  have hr := read_rivalEntry i
  rw [h] at hr
  have he := Entry.eq_of_read hr (read_rivalEntry j)
  cases i <;> cases j <;> simp [rivalEntry] at he ⊢

lemma le_rivalEntry : (rivalEntry false).le (rivalEntry true) = true := by
  decide +kernel

lemma attempt_entered (i : Bool) (now : Instant) :
    ((rival t i).entered [] now).attempt = some ⟨rivalEntry i, now⟩ := by
  rfl

lemma sightings_entered (i : Bool) (now : Instant) :
    ((rival t i).entered [] now).sightings.firstSeen = [] := by
  rfl

/-- A rival whose entry is listed, with no other before it, finds it first. -/
lemma standing_entered (t : Timings) (since now : Instant) {i : Bool} {listed : List String}
    (hmem : (rivalEntry i).name ∈ listed)
    (hle : ∀ n ∈ listed, ∃ j, n = (rivalEntry j).name ∧ (rivalEntry i).le (rivalEntry j) = true) :
    (((rival t i).entered [] since).observe listed now).standing ⟨rivalEntry i, since⟩ listed now =
        .first ∧
      (((rival t i).entered [] since).observe listed now).stale (rivalEntry i) listed now = [] := by
  refine Lock.standing_eq_first (a := ⟨rivalEntry i, since⟩) hmem ?_ ?_ ?_
  · rw [Lock.observe_queued?, Lock.queued?_eq_some]
    exact ⟨read_rivalEntry i, rfl⟩
  · intro n hn e he
    obtain ⟨j, rfl, hj⟩ := hle n hn
    rw [Lock.observe_queued?, Lock.queued?_eq_some] at he
    rw [Entry.eq_of_read he.1 (read_rivalEntry j)]
    exact hj
  · intro n first hf
    obtain ⟨-, hf | rfl⟩ := Lock.mem_sightings_observe hf
    · rw [sightings_entered] at hf
      cases hf
    · exact Nat.le_add_right _ _

/-- A client sees an object that stands if it wrote it, or if that was at least the lag ago. -/
lemma isVisible_iff {client writer : Nat} {now createdAt : Instant} {contents : ByteArray} :
    MemoryStore.isVisible lag client now { contents, writer, createdAt } = true ↔
      writer = client ∨ lag ≤ now - createdAt := by
  simp [MemoryStore.isVisible, MemoryStore.propagated]

/-- When the rivals create their entries if the second begins `delay` after the first. -/
def started (delay : Duration) (i : Bool) : Instant :=
  if i then 0 else delay

/-- A rival that has created its first entry at `now`, in its settling pause. -/
def paused (t : Timings) (i : Bool) (now : Instant) : Member :=
  ⟨(rival t i).entered [] now, some (.pause t.settling ⟨⟨now, none⟩⟩), now⟩

/-- A rival that has come first in a listing. -/
def winner (t : Timings) (i : Bool) (since now : Instant) (listed : List String) : Member :=
  ⟨((rival t i).entered [] since).won listed now, some (.done .acquired), now⟩

/-- A winner holds its lock with the entry it had. -/
lemma holdsFresh_of_winner {s : Contest Bool} {i : Bool} {since now : Instant}
    {listed : List String} (hm : s.members i = winner t i since now listed)
    (ht : s.now - since ≤ t.timeout) : s.HoldsFresh t.timeout i := by
  rw [HoldsFresh, hm]
  refine ⟨rfl, ⟨rivalEntry i, since⟩, ?_, ht⟩
  rw [winner, Lock.won, Lock.observe_attempt, attempt_entered]

/-- Both rivals have created their first entries, and the store holds nothing else. -/
structure Placed (lag delay : Duration) (t : Timings) (s : Contest Bool) : Prop where
  client : s.client = (rivals lag t).client
  lag_eq : s.store.lag = lag
  works : s.store.Works
  quiet : s.Quiet
  objects : ∃ contents : Bool → ByteArray, ∀ n o, (n, o) ∈ s.store.objects ↔
    ∃ i, n = (rivalEntry i).name ∧ o = ⟨contents i, (rivals lag t).client i, started delay i, none⟩

variable {delay : Duration} {s s' : Contest Bool}

lemma Placed.tick (h : Placed lag delay t s) (d : Duration) :
    Placed lag delay t { s with now := s.now + d } :=
  ⟨h.client, h.lag_eq, h.works, h.quiet, h.objects⟩

/-- A rival is shown its own entry, and the other's once it is older than the lag. -/
lemma Placed.mem_seen (h : Placed lag delay t s) {i : Bool} {n : String} :
    n ∈ s.store.seen (s.client i) s.now (Entry.listing "p") ↔
      ∃ j, n = (rivalEntry j).name ∧ (j = i ∨ lag ≤ s.now - started delay j) := by
  obtain ⟨contents, ho⟩ := h.objects
  have own {j : Bool} : (rivals lag t).client j = (rivals lag t).client i ↔ j = i := by
    cases i <;> cases j <;> simp [rivals]
  rw [MemoryStore.mem_seen, h.client, h.lag_eq]
  constructor
  · rintro ⟨o, hmem, -, -, hv⟩
    obtain ⟨j, rfl, rfl⟩ := (ho n o).mp hmem
    rw [isVisible_iff, own] at hv
    exact ⟨j, rfl, hv⟩
  · rintro ⟨j, rfl, hv⟩
    refine ⟨_, (ho _ _).mpr ⟨j, rfl, rfl⟩, rfl, Entry.startsWith_listing (rivalEntry j), ?_⟩
    rw [isVisible_iff, own]
    exact hv

/-- A rival that has settled wins unless it is shown an entry before its own. -/
lemma Placed.exists_wins (h : Placed lag delay t s) {i : Bool}
    (hm : s.members i = paused t i (started delay i))
    (hd : started delay i + t.settling ≤ s.now)
    (hle : ∀ j, j ≠ i → lag ≤ s.now - started delay j → (rivalEntry i).le (rivalEntry j) = true) :
    ∃ s' listed, Course s i (winner t i (started delay i) s.now listed) s' ∧
      Placed lag delay t s' := by
  have hown : (rivalEntry i).name ∈ s.store.seen (s.client i) s.now (Entry.listing "p") :=
    h.mem_seen.mpr ⟨i, rfl, .inl rfl⟩
  have hfirst := standing_entered t (started delay i) s.now hown
    (fun n hn => by
      obtain ⟨j, rfl, hv⟩ := h.mem_seen.mp hn
      refine ⟨j, rfl, ?_⟩
      by_cases hj : j = i
      · rw [hj]
        exact Entry.le_refl _
      · exact hle j hj (hv.resolve_left hj))
  obtain ⟨s', c, ho⟩ := Contest.exists_wins hm (attempt_entered i _) hd h.works h.quiet hfirst.1
    hfirst.2
  refine ⟨s', _, c, c.client.trans h.client, c.lag.trans h.lag_eq, c.works, c.quiet, ?_⟩
  obtain ⟨contents, ho'⟩ := h.objects
  refine ⟨contents, fun n o => ?_⟩
  rw [ho, List.mem_filter, ho']
  constructor
  · exact fun hn => hn.1
  · rintro ⟨j, rfl, rfl⟩
    exact ⟨⟨j, rfl, rfl⟩, rfl⟩

/-- The first rival has created its entry, and the other has not begun. -/
structure Begun (lag : Duration) (t : Timings) (contents : ByteArray) (s : Contest Bool) :
    Prop where
  run : Reaches Plain (rivals lag t) s
  client : s.client = (rivals lag t).client
  lag_eq : s.store.lag = lag
  works : s.store.Works
  quiet : s.Quiet
  objects : s.store.objects = [((rivalEntry true).name, ⟨contents, 0, 0, none⟩)]
  first : s.members true = paused t true 0
  second : s.members false = { lock := rival t false }

/-- The first rival creates its entry in an empty store, and then time passes. -/
lemma exists_begun (lag : Duration) (t : Timings) (d : Duration) :
    ∃ s contents, Begun lag t contents s ∧ s.now = d := by
  have hw : (rivals lag t).store.Works := ⟨rfl, fun kind => by cases kind <;> rfl⟩
  have hq : (rivals lag t).Quiet := fun _ => rfl
  obtain ⟨s, c, contents, ho⟩ := exists_enters (s := rivals lag t) (i := true) rfl trivial rfl hw
    hq (attempt_entered true 0) (by decide)
  have hnow : s.now = 0 := c.now
  refine ⟨{ s with now := s.now + d }, contents, ?_, ?_⟩
  · exact ⟨c.run.trans (c.quiet.tick d), c.client, c.lag, c.works, c.quiet, ho, c.members_self,
      c.members_ne (by decide)⟩
  · rw [hnow]
    exact Nat.zero_add d

/-- The rivals both create an entry with the first sequence if the second begins too early to be
shown the first's. -/
lemma exists_placed (hd : delay < lag) : ∃ s, Reaches Plain (rivals lag t) s ∧
    Placed lag delay t s ∧ s.now = delay ∧ ∀ i, s.members i = paused t i (started delay i) := by
  obtain ⟨s₁, contents₁, b, n₁⟩ := exists_begun lag t delay
  have hc : s₁.client false = 1 := congrFun b.client false
  -- The second is shown nothing either, since the entry has not been there for the lag.
  have hseen : s₁.store.seen (s₁.client false) s₁.now (rival t false).listing = [] := by
    rw [List.eq_nil_iff_forall_not_mem]
    intro n hn
    obtain ⟨o, ho, -, -, hv⟩ := MemoryStore.mem_seen.mp hn
    rw [b.objects, List.mem_singleton] at ho
    cases ho
    rw [isVisible_iff, hc, b.lag_eq, n₁] at hv
    lia
  obtain ⟨s₂, c₂, contents₂, o₂⟩ := exists_enters (i := false) (l := rival t false)
    (e := rivalEntry false) (by rw [b.second]) (by rw [b.second]; trivial) rfl b.works b.quiet
    (by rw [hseen]; exact attempt_entered false _) (by decide)
  rw [hseen, n₁] at c₂
  refine ⟨s₂, b.run.trans c₂.run, ⟨c₂.client.trans b.client, c₂.lag.trans b.lag_eq, c₂.works,
    c₂.quiet, fun i => if i then contents₁ else contents₂, fun n o => ?_⟩, c₂.now.trans n₁, ?_⟩
  · have hf : (s₁.store.objects.filter fun p => MemoryStore.isKept s₁.store.lag s₁.now p.2) =
        [((rivalEntry true).name, ⟨contents₁, 0, 0, none⟩)] := by
      rw [b.objects]
      rfl
    rw [o₂, hf, MemoryStore.mem_insert, List.mem_singleton, hc, n₁]
    constructor
    · rintro (⟨rfl, rfl⟩ | ⟨-, h⟩)
      · exact ⟨false, rfl, rfl⟩
      · cases h
        exact ⟨true, rfl, rfl⟩
    · rintro ⟨i, rfl, rfl⟩
      cases i with
      | false => exact .inl ⟨rfl, rfl⟩
      | true => exact .inr ⟨fun h => absurd (name_rivalEntry_inj h) (by decide), rfl⟩
  · intro i
    cases i with
    | false => exact c₂.members_self
    | true => exact (c₂.members_ne (by decide)).trans b.first

/-- The rivals both hold the lock if the second begins too late to be shown to the first, which
ranks its entry before, but not too late to be shown the first's entry. -/
theorem exists_both_hold (hd : delay < lag) (hs : lag ≤ t.settling)
    (hl : t.settling < delay + lag) (ht : delay + t.settling ≤ t.timeout) :
    ∃ s, Reaches Plain (rivals lag t) s ∧ ∀ i, s.HoldsFresh t.timeout i := by
  obtain ⟨s₁, run, p₁, n₁, m₁⟩ := exists_placed (t := t) hd
  -- The first wins because it is not shown the second's entry.
  have p₁' := p₁.tick (t.settling - delay)
  obtain ⟨s₂, listed, c₂, p₂⟩ := p₁'.exists_wins (i := true) (m₁ true)
    (by simp only [started, n₁]; lia)
    (by
      intro j hj hv
      cases j with
      | false => simp only [started, n₁] at hv; lia
      | true => exact absurd rfl hj)
  -- The second wins because its entry comes before the first's.
  have p₂' := p₂.tick delay
  have n₂ : s₂.now = t.settling := by
    rw [c₂.now, n₁]
    lia
  have m₂ : s₂.members false = paused t false delay := (c₂.members_ne (by decide)).trans (m₁ false)
  obtain ⟨s₃, listed', c₃, -⟩ := p₂'.exists_wins (i := false) m₂
    (by simp only [started, n₂]; lia)
    (by
      intro j hj _
      cases j with
      | false => exact absurd rfl hj
      | true => exact le_rivalEntry)
  have run' := ((run.trans (p₁.quiet.tick (t.settling - delay))).trans c₂.run).trans
    ((p₂.quiet.tick delay).trans c₃.run)
  have n₃ : s₃.now = t.settling + delay := by
    rw [c₃.now, n₂]
  refine ⟨s₃, run', ?_⟩
  intro i
  cases i with
  | false =>
    refine holdsFresh_of_winner c₃.members_self ?_
    simp only [started]
    lia
  | true =>
    refine holdsFresh_of_winner ((c₃.members_ne (by decide)).trans c₂.members_self) ?_
    simp only [started]
    lia

/-- A rival that is shown the other's first entry draws the sequence behind it. -/
lemma attempt_entered_behind (now : Instant) :
    ((rival t false).entered [(rivalEntry true).name] now).attempt =
      some ⟨⟨"p", 1, ⟨"a"⟩⟩, now⟩ := by
  have hq (l : Lock) (hl : l.lockPrefix = "p") :
      l.queued? (rivalEntry true).name = some (rivalEntry true) := by
    rw [Lock.queued?_eq_some, hl]
    exact ⟨read_rivalEntry true, rfl⟩
  simp only [Lock.entered, Lock.observe, List.foldl_cons, List.foldl_nil, Lock.note]
  rw [hq _ rfl]
  rfl

/-- A rival that begins after the other holds the lock creates its entry behind it. -/
theorem exists_held (lag : Duration) (t : Timings) (hs : lag ≤ t.settling)
    (ht : t.settling ≤ t.timeout) : ∃ s, Reaches Plain (rivals lag t) s ∧
      s.HoldsFresh t.timeout true ∧
      (s.members false).lock.attempt = some ⟨⟨"p", 1, ⟨"a"⟩⟩, t.settling⟩ := by
  obtain ⟨s₁, contents, b, n₁⟩ := exists_begun lag t t.settling
  -- Every client is shown the first's entry by now, and nothing else is there.
  have shown {store : MemoryStore} (client : Nat) (hl : store.lag = lag)
      (ho : store.objects = [((rivalEntry true).name, ⟨contents, 0, 0, none⟩)]) :
      store.seen client t.settling (Entry.listing "p") = [(rivalEntry true).name] := by
    have hv : MemoryStore.isVisible lag client t.settling ⟨contents, 0, 0, none⟩ = true := by
      rw [isVisible_iff]
      exact .inr hs
    have hn : Text.startsWith (rivalEntry true).name (Entry.listing "p") = true :=
      Entry.startsWith_listing (rivalEntry true)
    simp [MemoryStore.seen, ho, hl, MemoryStore.isKept, hn, hv]
  have hseen : s₁.store.seen (s₁.client true) s₁.now (Entry.listing "p") =
      [(rivalEntry true).name] := by
    rw [n₁]
    exact shown _ b.lag_eq b.objects
  have hmem : (rivalEntry true).name ∈ [(rivalEntry true).name] := List.mem_singleton.mpr rfl
  have hfirst := standing_entered t 0 s₁.now hmem fun n hn =>
    ⟨true, List.mem_singleton.mp hn, Entry.le_refl _⟩
  rw [← hseen] at hfirst
  obtain ⟨s₂, c₂, o₂⟩ := Contest.exists_wins b.first (attempt_entered true 0)
    (by rw [n₁]; lia) b.works b.quiet hfirst.1 hfirst.2
  have n₂ : s₂.now = t.settling := c₂.now.trans n₁
  have m₂ : s₂.members false = { lock := rival t false } :=
    (c₂.members_ne (by decide)).trans b.second
  have ho₂ : s₂.store.objects = [((rivalEntry true).name, ⟨contents, 0, 0, none⟩)] := by
    rw [o₂, b.objects]
    rfl
  have hseen₂ : s₂.store.seen (s₂.client false) s₂.now (rival t false).listing =
      [(rivalEntry true).name] := by
    rw [n₂]
    exact shown _ (c₂.lag.trans b.lag_eq) ho₂
  obtain ⟨s₃, c₃, -⟩ := exists_enters (i := false) (l := rival t false)
    (e := ⟨"p", 1, ⟨"a"⟩⟩) (by rw [m₂]) (by rw [m₂]; trivial) rfl c₂.works c₂.quiet
    (by rw [hseen₂]; exact attempt_entered_behind _) (by decide)
  refine ⟨s₃, (b.run.trans c₂.run).trans c₃.run, ?_, ?_⟩
  · refine holdsFresh_of_winner ((c₃.members_ne (by decide)).trans c₂.members_self) ?_
    rw [c₃.now, n₂]
    lia
  · rw [c₃.members_self, hseen₂, n₂]
    exact attempt_entered_behind _

end StoreLock.Contest
