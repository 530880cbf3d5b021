import StoreLock.Proofs.Entry.Child
import StoreLock.Proofs.Lock.Advance
import StoreLock.Provider

/-!
# Fleets

Several providers with all the locks that they have handed out. Locks are handed out and used in any
order, and nothing is said of the stores they use: what a lock is told, and when, is arbitrary. What
matters is which names it asks a store to create an object of (`Fleet.Issue`), over a whole run.

No name is asked for twice (`Fleet.issues_apart`). The owner in a name tells the provider and the number
of the lock, whose entries are drawn with growing sequences. The number has 64 bits, so this is so until a
provider has handed out all of them and starts again.
-/

namespace StoreLock

/-- Providers, and the locks that each has handed out in their order. -/
structure Fleet (ι Client : Type) where
  providers : ι → Provider Client
  members : ι → List Member

namespace Fleet

variable {ι Client : Type}

/-- The lock at this place among those of a provider. -/
def member? (s : Fleet ι Client) (i : ι) (place : Nat) : Option Member :=
  (s.members i)[place]?

/-- A request to create the object of an entry. -/
structure Issue (ι : Type) where
  /-- The provider that has handed out the lock. -/
  provider : ι
  /-- How many locks that provider had handed out before. -/
  place : Nat
  /-- The entry. -/
  entry : Entry

/-- Requests for different names, unless they are of two locks to which one provider has given the same
number of 64 bits. -/
def Issue.Apart (c c' : Issue ι) : Prop :=
  c.entry.name = c'.entry.name →
    c.provider = c'.provider ∧ c.place ≠ c'.place ∧ c.place ≡ c'.place [MOD 2 ^ 64]

/-- A fleet before anything has happened: all providers are new, and their tokens are accepted and
differ. -/
structure Opening (s : Fleet ι Client) : Prop where
  built : ∀ i, ∃ settings random, ProviderSettings.build settings random = .ok (s.providers i)
  accepted : ∀ i, OwnerId.ofText (s.providers i).owner.text = .ok (s.providers i).owner
  distinct : Function.Injective fun i => (s.providers i).owner
  members : ∀ i, s.members i = []

/-- What holds throughout a run: the locks have the owners that their places tell, and every request so
far has used up its sequence. -/
structure Sound (token : ι → OwnerId) (issues : List (Issue ι)) (s : Fleet ι Client) : Prop where
  timings : ∀ i, (s.providers i).timings.check = .ok ()
  tokens : ∀ i, (s.providers i).owner = token i
  next : ∀ i, (s.providers i).nextIndex = .ofNat (s.members i).length
  owner : ∀ i place m, s.member? i place = some m → m.lock.owner = (token i).child (.ofNat place)
  coherent : ∀ i place m, s.member? i place = some m → m.Coherent
  issued : ∀ c ∈ issues, c.entry.owner = (token c.provider).child (.ofNat c.place) ∧
    ∃ m last, s.member? c.provider c.place = some m ∧ m.lock.sequencer.last = some last ∧
      c.entry.sequence ≤ last
  apart : issues.Pairwise Issue.Apart

variable {s s' : Fleet ι Client} {token : ι → OwnerId} {issues : List (Issue ι)} {i j : ι}
  {place k : Nat} {m m' : Member} {p : Provider Client}

lemma eq_of_build {settings : ProviderSettings Client} {random : OwnerId}
    (h : settings.build random = .ok p) : p.timings.check = .ok () ∧ p.nextIndex = 0 := by
  rw [ProviderSettings.build] at h
  split at h
  case h_1 => cases h
  case h_2 => cases h
  case h_3 store timings _ _ =>
    cases hc : timings.check with
    | error e =>
      rw [hc] at h
      cases h
    | ok u =>
      rw [hc] at h
      cases h
      exact ⟨hc, rfl⟩

lemma createLock_eq_ok {lockPrefix : String} (ht : p.timings.check = .ok ())
    (hp : checkPrefix lockPrefix = .ok ()) : p.createLock lockPrefix =
      (.ok { lockPrefix, owner := p.owner.child p.nextIndex, timings := p.timings,
             sequencer := { strategy := p.strategy } },
        { p with nextIndex := p.nextIndex + 1 }) := by
  rw [Provider.createLock, hp, Lock.create, hp, ht]

lemma createLock_eq_error {lockPrefix : String} {e : LockError}
    (hp : checkPrefix lockPrefix = .error e) : p.createLock lockPrefix = (.error e, p) := by
  rw [Provider.createLock, hp]

/-- A provider whose timings are accepted hands out a new lock with its next number, or nothing
happens. -/
lemma createLock_cases {p' : Provider Client} {lockPrefix : String} {answer : Except LockError Lock}
    (ht : p.timings.check = .ok ()) (h : p.createLock lockPrefix = (answer, p')) :
    ((∃ e, answer = .error e) ∧ p' = p) ∨
      ∃ l, answer = .ok l ∧ p' = { p with nextIndex := p.nextIndex + 1 } ∧
        l.owner = p.owner.child p.nextIndex ∧ ({ lock := l } : Member).Coherent := by
  cases hp : checkPrefix lockPrefix with
  | error e =>
    rw [createLock_eq_error hp] at h
    cases h
    exact .inl ⟨⟨e, rfl⟩, rfl⟩
  | ok u =>
    rw [createLock_eq_ok ht hp] at h
    cases h
    exact .inr ⟨_, rfl, rfl, rfl, nofun, False.elim⟩

lemma Opening.sound (h : s.Opening) : Sound (fun i => (s.providers i).owner) [] s where
  timings i := by
    obtain ⟨settings, random, hb⟩ := h.built i
    exact (eq_of_build hb).1
  tokens _ := rfl
  next i := by
    obtain ⟨settings, random, hb⟩ := h.built i
    rw [(eq_of_build hb).2, h.members]
    rfl
  owner i place m hm := by
    rw [member?, h.members] at hm
    cases hm
  coherent i place m hm := by
    rw [member?, h.members] at hm
    cases hm
  issued := nofun
  apart := .nil

/-- An entry that has just been drawn has a name that has not been asked for, but by a lock of the same
number. -/
lemma Sound.apart_of_drawn (h : Sound token issues s) (ha : ∀ i, OwnerId.accepts (token i).text = true)
    (hd : Function.Injective token) {input : Input} (hk : s.member? i place = some m) {e : Entry}
    (he : m.Drawn input m' e) {c : Issue ι} (hc : c ∈ issues)
    (hm : c.entry.sequence ≠ Sequencer.most) : Issue.Apart ⟨i, place, e⟩ c := by
  intro hname
  obtain ⟨howner, m₁, last, hm₁, hlast, hle⟩ := h.issued c hc
  have howner' : e.owner = (token i).child (.ofNat place) := by
    rw [he.owner, h.owner i place m hk]
  have heq : e = c.entry := by
    apply Entry.eq_of_name_eq _ _ hname
    · rw [howner']
      exact OwnerId.separator_not_mem_child (ha i)
    · rw [howner]
      exact OwnerId.separator_not_mem_child (ha c.provider)
  rw [heq, howner, OwnerId.child_inj] at howner'
  obtain ⟨htoken, hnumber⟩ := howner'
  have hi : i = c.provider := (hd htoken).symm
  refine ⟨hi, ?_, ?_⟩
  · -- A lock draws a larger sequence each time.
    intro hplace
    dsimp only at hplace
    rw [← hi, ← hplace, hk] at hm₁
    cases hm₁
    have hlt := he.after_last last hlast c.entry.sequence hle hm
    rw [heq] at hlt
    exact UInt64.lt_irrefl _ hlt
  · rw [← UInt64.toNat_inj, UInt64.toNat_ofNat', UInt64.toNat_ofNat'] at hnumber
    exact hnumber.symm

variable [DecidableEq ι]

/-- One more lock has been handed out by a provider, which is as given after that. -/
def handOut (s : Fleet ι Client) (i : ι) (p : Provider Client) (m : Member) : Fleet ι Client :=
  ⟨Function.update s.providers i p, Function.update s.members i (s.members i ++ [m])⟩

/-- Something has happened to the lock at a place. -/
def put (s : Fleet ι Client) (i : ι) (place : Nat) (m : Member) : Fleet ι Client :=
  { s with members := Function.update s.members i ((s.members i).set place m) }

/-- One thing that happens in a fleet, with the request to create an object that comes of it: a provider
is asked for a lock, or something happens to a lock. -/
inductive Step (s : Fleet ι Client) : Option (Issue ι) → Fleet ι Client → Prop where
  | make {i lockPrefix l p} :
    (s.providers i).createLock lockPrefix = (.ok l, p) →
    Step s none (s.handOut i p { lock := l })
  | refuse {i lockPrefix e p} :
    (s.providers i).createLock lockPrefix = (.error e, p) →
    Step s none { s with providers := Function.update s.providers i p }
  | act {i place input m m'} :
    s.member? i place = some m →
    m.Step input m' →
    Step s (m'.pending?.map (⟨i, place, ·⟩)) (s.put i place m')

/-- A run of a fleet with the requests to create objects, the latest first. -/
inductive Run (s : Fleet ι Client) : List (Issue ι) → Fleet ι Client → Prop where
  | nil : Run s [] s
  | cons {issues s' issue? s''} :
    Run s issues s' →
    Step s' issue? s'' →
    Run s (issue?.toList ++ issues) s''

lemma handOut_members_self : (s.handOut i p m).members i = s.members i ++ [m] :=
  Function.update_self ..

lemma handOut_members_ne (hj : j ≠ i) : (s.handOut i p m).members j = s.members j :=
  Function.update_of_ne hj ..

lemma put_members_self : (s.put i place m).members i = (s.members i).set place m :=
  Function.update_self ..

lemma put_members_ne (hj : j ≠ i) : (s.put i place m).members j = s.members j :=
  Function.update_of_ne hj ..

lemma member?_handOut : (s.handOut i p m).member? j k =
    if j = i ∧ k = (s.members i).length then some m else s.member? j k := by
  rw [member?, member?]
  by_cases hj : j = i
  · subst hj
    rw [handOut_members_self, List.getElem?_append]
    rcases Nat.lt_trichotomy k (s.members j).length with hlt | heq | hgt
    · rw [if_pos hlt, if_neg (by omega)]
    · simp [heq]
    · rw [if_neg (by omega), if_neg (by omega), List.getElem?_eq_none (by simp; omega),
        List.getElem?_eq_none (by omega)]
  · rw [handOut_members_ne hj, if_neg (fun h => hj h.1)]

lemma member?_put (h : s.member? i place = some m) : (s.put i place m').member? j k =
    if j = i ∧ k = place then some m' else s.member? j k := by
  rw [member?, member?]
  by_cases hj : j = i
  · subst hj
    obtain ⟨hlt, -⟩ := List.getElem?_eq_some_iff.mp h
    rw [put_members_self, List.getElem?_set, if_pos hlt]
    by_cases hk : k = place
    · simp [hk]
    · rw [if_neg (Ne.symm hk), if_neg (fun h => hk h.2)]
  · rw [put_members_ne hj, if_neg (fun h => hj h.1)]

namespace Sound

lemma handOut (h : Sound token issues s) {l : Lock}
    (ho : l.owner = (s.providers i).owner.child (s.providers i).nextIndex)
    (hl : ({ lock := l } : Member).Coherent) :
    Sound token issues (s.handOut i
      { s.providers i with nextIndex := (s.providers i).nextIndex + 1 } { lock := l }) where
  timings j := by
    simp only [Fleet.handOut, Function.update_apply]
    split
    case isTrue => exact h.timings i
    case isFalse => exact h.timings j
  tokens j := by
    simp only [Fleet.handOut, Function.update_apply]
    split
    case isTrue hj =>
      rw [hj]
      exact h.tokens i
    case isFalse => exact h.tokens j
  next j := by
    by_cases hj : j = i
    · subst hj
      rw [handOut_members_self, List.length_append]
      simp [Fleet.handOut, h.next]
    · rw [handOut_members_ne hj]
      simpa [Fleet.handOut, hj] using h.next j
  owner j k m hm := by
    rw [member?_handOut] at hm
    split at hm
    case isTrue hjk =>
      cases hm
      rw [hjk.1, hjk.2, ho, h.tokens, h.next]
    case isFalse => exact h.owner j k m hm
  coherent j k m hm := by
    rw [member?_handOut] at hm
    split at hm
    case isTrue =>
      cases hm
      exact hl
    case isFalse => exact h.coherent j k m hm
  issued c hc := by
    obtain ⟨howner, m, last, hm, hlast, hle⟩ := h.issued c hc
    refine ⟨howner, m, last, ?_, hlast, hle⟩
    -- The new lock comes behind all that were there.
    obtain ⟨hlt, -⟩ := List.getElem?_eq_some_iff.mp hm
    rw [member?_handOut, if_neg, hm]
    rintro ⟨hi, hk⟩
    rw [hi] at hlt
    omega
  apart := h.apart

lemma put (h : Sound token issues s) (ha : ∀ i, OwnerId.accepts (token i).text = true)
    (hd : Function.Injective token) (hm : ∀ c ∈ issues, c.entry.sequence ≠ Sequencer.most)
    {input : Input} (hk : s.member? i place = some m) (st : m.Step input m') :
    Sound token ((m'.pending?.map (⟨i, place, ·⟩)).toList ++ issues) (s.put i place m') := by
  have ad := st.advance (h.coherent i place m hk)
  -- Whatever the lock has drawn before, it has not drawn less after the step.
  have last_mono (last : UInt64) (q : UInt64) (hlast : m.lock.sequencer.last = some last)
      (hq : q ≤ last) (hne : q ≠ Sequencer.most) :
      ∃ last', m'.lock.sequencer.last = some last' ∧ q ≤ last' := by
    cases hp : m'.pending? with
    | none =>
      rw [ad.last hp]
      exact ⟨last, hlast, hq⟩
    | some e =>
      have drawn := ad.pending e hp
      exact ⟨e.sequence, drawn.last, UInt64.le_of_lt (drawn.after_last last hlast q hq hne)⟩
  refine ⟨h.timings, h.tokens, ?_, ?_, ?_, ?_, ?_⟩
  · intro j
    by_cases hj : j = i
    · subst hj
      rw [put_members_self, List.length_set]
      exact h.next j
    · rw [put_members_ne hj]
      exact h.next j
  · intro j k m₁ hm₁
    rw [member?_put hk] at hm₁
    split at hm₁
    case isTrue hjk =>
      cases hm₁
      rw [hjk.1, hjk.2, ad.owner, h.owner i place m hk]
    case isFalse => exact h.owner j k m₁ hm₁
  · intro j k m₁ hm₁
    rw [member?_put hk] at hm₁
    split at hm₁
    case isTrue =>
      cases hm₁
      exact st.coherent (h.coherent i place m hk)
    case isFalse => exact h.coherent j k m₁ hm₁
  · intro c hc
    rcases List.mem_append.mp hc with hnew | hold
    · simp only [Option.mem_toList, Option.map_eq_some_iff] at hnew
      obtain ⟨e, hp, rfl⟩ := hnew
      have drawn := ad.pending e hp
      refine ⟨?_, m', e.sequence, ?_, drawn.last, UInt64.le_refl _⟩
      · rw [drawn.owner, h.owner i place m hk]
      · rw [member?_put hk, if_pos ⟨rfl, rfl⟩]
    · obtain ⟨howner, m₁, last, hm₁, hlast, hle⟩ := h.issued c hold
      refine ⟨howner, ?_⟩
      rw [member?_put hk]
      split
      case isTrue hjk =>
        rw [hjk.1, hjk.2, hk] at hm₁
        cases hm₁
        obtain ⟨last', hlast', hle'⟩ := last_mono last c.entry.sequence hlast hle (hm c hold)
        exact ⟨m', last', rfl, hlast', hle'⟩
      case isFalse => exact ⟨m₁, last, hm₁, hlast, hle⟩
  · cases hp : m'.pending? with
    | none => exact h.apart
    | some e =>
      refine List.pairwise_cons.mpr ⟨?_, h.apart⟩
      intro c hc
      exact h.apart_of_drawn ha hd hk (ad.pending e hp) hc (hm c hc)

lemma step (h : Sound token issues s) (ha : ∀ i, OwnerId.accepts (token i).text = true)
    (hd : Function.Injective token) (hm : ∀ c ∈ issues, c.entry.sequence ≠ Sequencer.most)
    {issue? : Option (Issue ι)} (st : Step s issue? s') :
    Sound token (issue?.toList ++ issues) s' := by
  cases st with
  | make hl =>
    rename_i i _ l p
    rcases createLock_cases (h.timings i) hl with ⟨⟨e, he⟩, -⟩ | ⟨l', hl', rfl, ho, hc⟩
    · cases he
    · cases hl'
      exact h.handOut ho hc
  | refuse he =>
    rename_i i _ e p
    rcases createLock_cases (h.timings i) he with ⟨-, rfl⟩ | ⟨l', hl', -⟩
    · rw [Function.update_eq_self]
      exact h
    · cases hl'
  | act hk st => exact h.put ha hd hm hk st

lemma run (h : Sound token [] s) (ha : ∀ i, OwnerId.accepts (token i).text = true)
    (hd : Function.Injective token) (run : Run s issues s')
    (hm : ∀ c ∈ issues, c.entry.sequence ≠ Sequencer.most) : Sound token issues s' := by
  induction run with
  | nil => exact h
  | cons _ st ih =>
    have hm' := fun c hc => hm c (List.mem_append_right _ hc)
    exact (ih hm').step ha hd hm' st

end Sound

/-- Two requests for one name are of locks to which one provider has given the same number. As long as no
provider has handed out more locks than there are numbers, no name is asked for twice. -/
theorem issues_apart (h : s.Opening) (run : Run s issues s')
    (hm : ∀ c ∈ issues, c.entry.sequence ≠ Sequencer.most) :
    issues.Pairwise Issue.Apart ∧
      ((∀ i, (s'.members i).length ≤ 2 ^ 64) → (issues.map (·.entry.name)).Nodup) := by
  have ha (i : ι) : OwnerId.accepts (s.providers i).owner.text = true := by
    rw [OwnerId.accepts_iff]
    exact (OwnerId.ofText_eq_ok_iff.mp (h.accepted i)).2
  have hs := h.sound.run ha h.distinct run hm
  refine ⟨hs.apart, ?_⟩
  intro hlen
  have hplace (c : Issue ι) (hc : c ∈ issues) : c.place < 2 ^ 64 := by
    obtain ⟨-, m, -, hc, -⟩ := hs.issued c hc
    obtain ⟨hlt, -⟩ := List.getElem?_eq_some_iff.mp hc
    exact Nat.lt_of_lt_of_le hlt (hlen c.provider)
  apply List.pairwise_map.mpr
  apply hs.apart.imp_of_mem
  intro c c' hc hc' hapart hname
  obtain ⟨-, hne, hmod⟩ := hapart hname
  exact hne (Nat.ModEq.eq_of_lt_of_lt hmod (hplace c hc) (hplace c' hc'))

lemma put_put : (s.put i place m).put i place m' = s.put i place m' := by
  simp [put]

/-- A new lock that is to be taken asks for an entry as soon as it has been told that its queue is
empty. -/
lemma Run.asks (run : Run s issues s') {l : Lock} (hm : s'.member? i place = some { lock := l })
    (hidle : l.state = .idle) (hl : l.sequencer = { strategy := .counter }) :
    ∃ m, Run s (⟨i, place, ⟨l.lockPrefix, 0, l.owner⟩⟩ :: issues) (s'.put i place m) := by
  let r : Reading := ⟨0, 0, false⟩
  let m₁ := Member.ofTurn (l.acquire none r) 0
  let m₂ := Member.ofTurn (m₁.lock.resume (.seeding ⟨0, none⟩) (.ok []) r) 0
  have hacquire : l.acquire none r = l.start none r := by
    rw [Lock.acquire, hidle]
  have hasks : m₁.progress = some (.request (.seeding ⟨0, none⟩)) := by
    simp [m₁, hacquire, Lock.start, Member.ofTurn, r]
  have hnone : m₁.pending? = none := by
    rw [Member.pending?, hasks]
  have hsome : m₂.pending? = some ⟨l.lockPrefix, 0, l.owner⟩ := by
    simp [m₂, m₁, hacquire, Lock.start, Member.ofTurn, r, Lock.resume, Lock.register, Member.pending?,
      Lock.observe, hl, Sequencer.next, Sequencer.base, Sequencer.above]
    rfl
  have st₁ : Step s' none (s'.put i place m₁) := by
    have st := Step.act hm (@Member.Step.acquire { lock := l } none r trivial)
    rw [show Member.ofTurn _ r.now = m₁ from rfl, hnone] at st
    exact st
  have st₂ : Step (s'.put i place m₁) (some ⟨i, place, ⟨l.lockPrefix, 0, l.owner⟩⟩)
      (s'.put i place m₂) := by
    have hm₁ : (s'.put i place m₁).member? i place = some m₁ := by
      rw [member?_put hm, if_pos ⟨rfl, rfl⟩]
    have st := Step.act hm₁ (@Member.Step.answer m₁ (.seeding ⟨0, none⟩) (.ok []) r hasks)
    rw [show Member.ofTurn _ r.now = m₂ from rfl, hsome, put_put] at st
    exact st
  exact ⟨m₂, (run.cons st₁).cons st₂⟩

/-- The second token goes on where an owner that is derived from the first ends, and a prefix is refused
in between; still the two locks ask for different names. -/
theorem issues_apart_of_two : ∃ (s s' : Fleet Bool Unit) (issues : List (Issue Bool)),
    (s.providers false).owner = ⟨"a"⟩ ∧ (s.providers true).owner = ⟨"a-0"⟩ ∧ s.Opening ∧
      Run s issues s' ∧ (∀ c ∈ issues, c.entry.sequence ≠ Sequencer.most) ∧
      (∀ i, (s'.members i).length ≤ 2 ^ 64) ∧
      issues.map (·.entry.name) =
        ["p_00000000000000000000_a-0-0", "p_00000000000000000000_a-0"] ∧
      (issues.map (·.entry.name)).Nodup := by
  let pr (i : Bool) : Provider Unit :=
    ⟨(), .recommended, ⟨if i then "a-0" else "a"⟩, .counter, 0⟩
  let lock (i : Bool) : Lock :=
    ⟨"p", (pr i).owner.child 0, .recommended, { strategy := .counter }, {}, .idle, none⟩
  let s : Fleet Bool Unit := ⟨pr, fun _ => []⟩
  have ht : Timings.recommended.check = .ok () := by
    decide
  have hp : checkPrefix "p" = .ok () := by
    decide
  have hopening : s.Opening := by
    refine ⟨?_, ?_, ?_, fun _ => rfl⟩
    · intro i
      refine ⟨⟨some (), some .recommended, some (pr i).owner, .counter⟩, ⟨"b"⟩, ?_⟩
      simp only [ProviderSettings.build, ht]
      rfl
    · decide
    · decide
  have hrefused : checkPrefix "" = .error (.invalidName PrefixFault.empty.detail) := by
    decide
  let s₁ := s.handOut false { pr false with nextIndex := 1 } { lock := lock false }
  let s₂ := s₁.handOut true { pr true with nextIndex := 1 } { lock := lock true }
  have st₁ : Step s none s := by
    have st := Step.refuse (s := s) (i := false) (createLock_eq_error hrefused)
    rw [Function.update_eq_self] at st
    exact st
  have st₂ : Step s none s₁ := .make (createLock_eq_ok ht hp)
  have st₃ : Step s₁ none s₂ := .make (createLock_eq_ok (p := pr true) ht hp)
  have hm : s₂.member? false 0 = some { lock := lock false } := rfl
  obtain ⟨m, run⟩ := Run.asks (((Run.nil.cons st₁).cons st₂).cons st₃) hm rfl rfl
  have hm' : (s₂.put false 0 m).member? true 0 = some { lock := lock true } := by
    rw [member?_put hm, if_neg (by decide)]
    rfl
  obtain ⟨m', run'⟩ := run.asks hm' rfl rfl
  have hlen (i : Bool) : (((s₂.put false 0 m).put true 0 m').members i).length ≤ 2 ^ 64 := by
    cases i
    · rw [put_members_ne (by decide), put_members_self, List.length_set]
      decide
    · rw [put_members_self, List.length_set, put_members_ne (by decide)]
      decide
  let issues : List (Issue Bool) :=
    [⟨true, 0, ⟨"p", 0, (lock true).owner⟩⟩, ⟨false, 0, ⟨"p", 0, (lock false).owner⟩⟩]
  have hnames : issues.map (·.entry.name) =
      ["p_00000000000000000000_a-0-0", "p_00000000000000000000_a-0"] := by
    decide +kernel
  have hmost : ∀ c ∈ issues, c.entry.sequence ≠ Sequencer.most := by
    intro c hc
    have hzero : c.entry.sequence = 0 := by
      rcases List.mem_pair.mp hc with rfl | rfl <;> rfl
    rw [hzero]
    decide
  exact ⟨s, _, issues, rfl, rfl, hopening, run', hmost, hlen, hnames,
    (issues_apart hopening run' hmost).2 hlen⟩

end Fleet

end StoreLock
