import StoreLock.Proofs.Entry.Child
import StoreLock.Proofs.Lock.Circling
import StoreLock.Proofs.Lock.Ending
import StoreLock.Proofs.Session.Succession
import StoreLock.Provider

/-!
# Locks from a provider

Whether a lock that a provider hands out is of any use depends on the length of the provider's token
(`Provider.recognises_iff`). If the token leaves room for the number of the lock, the owner derived from
it is an id, names written with it read back, and the lock is taken on an empty store as soon as its
entry has settled. If it does not, the lock never recognises its own entry, and a call without a limit
goes round for ever. A lock that is made and taken at once is held when it is handed out
(`Session.lockPrefix_isHeld`).
-/

namespace StoreLock

namespace Session

variable {s s' : Session MemoryStore Nat} {l : Lock} {t t' : Lock.Turn} {client : Nat}
  {listing : String} {owner : OwnerId}

/-- A lock that is alone has all its requests served, and stays alone. -/
lemma Lone.served (h : s.Lone) {request : Request} {answer : request.Answer}
    (hc : s.call client listing request = (answer, s')) : s'.Lone ∧ request.IsServed answer := by
  cases request with
  | list =>
    obtain ⟨s₁, hc₁, h₁, -⟩ := h.list client listing
    rw [hc₁] at hc
    cases hc
    exact ⟨h₁, trivial⟩
  | create name contents =>
    obtain ⟨s₁, hc₁, h₁, -⟩ := h.create client listing name contents
    rw [hc₁] at hc
    cases hc
    exact ⟨h₁, trivial⟩
  | delete name =>
    obtain ⟨s₁, hc₁, h₁, -⟩ := h.delete client listing name
    rw [hc₁] at hc
    cases hc
    exact ⟨h₁, trivial⟩

/-- A lock whose owner is no id moves on its round. -/
lemma Moves.circles (hm : Moves client t s t' s') (ho : ¬ OwnerId.accepts owner.text = true)
    (h : s.Lone) (hc : Lock.Circles owner t) : s'.Lone ∧ Lock.Circles owner t' := by
  cases hm with
  | @pause l d rest ended s s' hsleep =>
    obtain ⟨s₁, hsleep₁, h₁, -⟩ := h.sleep d
    rw [hsleep₁] at hsleep
    cases hsleep
    exact ⟨h₁, hc.wake h₁.uncancelled⟩
  | request hcall =>
    obtain ⟨h', hserved⟩ := h.served hcall
    exact ⟨h', hc.resume ho hserved h'.uncancelled⟩

/-- A lock whose owner is no id is never taken by a call without a limit: the call does not end. -/
lemma Lone.never_ends {lockPrefix : String} {timings : Timings} {strategy : Strategy}
    (hl : Lock.create lockPrefix owner timings strategy = .ok l)
    (ho : ¬ OwnerId.accepts owner.text = true) (h : s.Lone) (client fuel : Nat) :
    (Session.run fuel s client (l.acquire none s.reading)).1 = none := by
  obtain ⟨rfl, -, -⟩ := Lock.eq_of_create hl
  apply run_eq_none (Q := fun t s => s.Lone ∧ Lock.Circles owner t)
  · intro t t' s s' hq hm
    exact hm.circles ho hq.1 hq.2
  · intro l o s hq
    exact Lock.not_circles_done hq.2
  · refine ⟨h, ?_⟩
    rw [Lock.acquire_eq rfl h.uncancelled]
    exact ⟨⟨rfl, nofun⟩, rfl⟩

/-- A lock that is alone on an empty store is taken as soon as its entry has settled. -/
lemma Lone.taken_on_empty {lockPrefix : String} {timings : Timings} {strategy : Strategy}
    (hl : Lock.create lockPrefix owner timings strategy = .ok l)
    (ho : OwnerId.accepts owner.text = true) (h : s.Lone) (hempty : s.store.live = [])
    (client : Nat) :
    ∃ fuel l' s', (∀ more ≥ fuel,
        Session.run more s client (l.acquire none s.reading) = (some .acquired, l', s')) ∧
      l'.isHeld = true ∧ s'.clock.now = s.clock.now + timings.settling := by
  obtain ⟨l₁, a, s₁, henters, h₁, ht₁, ⟨hp₁, -⟩, ⟨ha, -⟩, hw, o, hlive₁⟩ :=
    Lone.enters hl ho h none nofun client
  have hfirst : (l₁.observe (s₁.store.shown l₁.listing) (s₁.clock.now + timings.settling)).standing a
      (s₁.store.shown l₁.listing) (s₁.clock.now + timings.settling) = .first := by
    apply (hw.observe _).standing_eq_first
    intro n hn _ _
    rw [Lock.listing, hp₁, ← ha, MemoryStore.mem_shown_of_insert hlive₁] at hn
    rcases hn with hown | ⟨-, hother⟩
    · exact hown
    · rw [MemoryStore.shown, hempty] at hother
      cases hother
  obtain ⟨n, l', s', hgoes, htime, hs⟩ := h₁.wins rfl rfl hw hfirst ⟨s.clock.now, none⟩ client
  refine ⟨2 + n, l', s', (henters.trans hgoes).run, ?_, ?_⟩
  · rw [Lock.isHeld, hs.held]
    rfl
  · rw [htime, ht₁]

lemma exists_lone : ∃ s : Session MemoryStore Nat, s.Lone ∧ s.store.live = [] := by
  refine ⟨⟨.initial, {}, MemoryStore.mainClient, [], none, [], []⟩, ⟨rfl, rfl, ⟨rfl, ?_⟩, rfl⟩, rfl⟩
  intro kind
  cases kind <;> rfl

end Session

namespace Provider

lemma createLock_eq {Client : Type} {pr : Provider Client} {lockPrefix : String}
    (ht : pr.timings.check = .ok ()) (hp : checkPrefix lockPrefix = .ok ()) :
    ∃ l, (pr.createLock lockPrefix).1 = .ok l ∧
      Lock.create lockPrefix (pr.owner.child pr.nextIndex) pr.timings pr.strategy = .ok l := by
  rw [createLock, hp, Lock.create, hp, ht]
  exact ⟨_, rfl, rfl⟩

/-- A lock that a provider hands out is idle. -/
lemma state_of_createLock {Client : Type} {pr pr' : Provider Client} {lockPrefix : String} {l : Lock}
    (h : pr.createLock lockPrefix = (.ok l, pr')) : l.state = .idle := by
  rw [createLock] at h
  split at h
  case h_1 => cases h
  case h_2 =>
    obtain ⟨rfl, -, -⟩ := Lock.eq_of_create (congrArg Prod.fst h)
    rfl

/-- A lock that a provider hands out recognises its own entry, and is taken on an empty store, if and only
if the token of the provider has left room for its number. -/
theorem recognises_iff {pr : Provider Nat} {lockPrefix : String}
    (ho : OwnerId.accepts pr.owner.text = true) (ht : pr.timings.check = .ok ())
    (hp : checkPrefix lockPrefix = .ok ()) :
    ∃ l, (pr.createLock lockPrefix).1 = .ok l ∧ l.owner = pr.owner.child pr.nextIndex ∧
      (OwnerId.ofText l.owner.text = .ok l.owner ↔ pr.owner.HasRoom pr.nextIndex) ∧
      (∀ sequence, Entry.ofName (Entry.name ⟨lockPrefix, sequence, l.owner⟩) =
        .ok ⟨lockPrefix, sequence, l.owner⟩ ↔ pr.owner.HasRoom pr.nextIndex) ∧
      ∀ s : Session MemoryStore Nat, s.Lone → s.store.live = [] →
        (pr.owner.HasRoom pr.nextIndex → ∃ fuel l' s', (∀ more ≥ fuel,
            Session.run more s pr.store (l.acquire none s.reading) = (some .acquired, l', s')) ∧
          l'.isHeld = true ∧ s'.clock.now = s.clock.now + pr.timings.settling) ∧
        (¬ pr.owner.HasRoom pr.nextIndex → ∀ fuel,
          (Session.run fuel s pr.store (l.acquire none s.reading)).1 = none) := by
  obtain ⟨l, hl, hlock⟩ := createLock_eq ht hp
  have hne := (Lock.eq_of_create hlock).2.1
  have howner : l.owner = pr.owner.child pr.nextIndex := by
    rw [(Lock.eq_of_create hlock).1]
  refine ⟨l, hl, howner, ?_, ?_, ?_⟩
  · rw [OwnerId.ofText_eq_ok_iff, ← OwnerId.accepts_iff, howner, eq_self, true_and,
      OwnerId.accepts_child_iff ho]
  · intro sequence
    rw [Entry.ofName_eq_ok, howner]
    exact (Entry.read_child_iff ho hne).1
  · intro s hs hempty
    rw [← OwnerId.accepts_child_iff ho]
    constructor
    · intro hroom
      exact hs.taken_on_empty hlock hroom hempty pr.store
    · intro hroom fuel
      exact hs.never_ends hlock hroom pr.store fuel

/-- The longest token that leaves room for a number of one digit has 126 bytes; a lock made under it is
taken. -/
theorem recognises_under_longest : ∃ (pr : Provider Nat) (l : Lock) (s : Session MemoryStore Nat),
    pr.owner.text.length = 126 ∧ pr.nextIndex = 0 ∧ OwnerId.accepts pr.owner.text = true ∧
      pr.timings.check = .ok () ∧ checkPrefix "p" = .ok () ∧ (pr.createLock "p").1 = .ok l ∧
      OwnerId.ofText l.owner.text = .ok l.owner ∧ s.Lone ∧ s.store.live = [] ∧
      ∃ fuel l' s', (∀ more ≥ fuel,
          Session.run more s pr.store (l.acquire none s.reading) = (some .acquired, l', s')) ∧
        l'.isHeld = true ∧ s'.clock.now = s.clock.now + pr.timings.settling := by
  obtain ⟨pr, hlen, hindex, ho, ht, hp, hroom⟩ : ∃ pr : Provider Nat, pr.owner.text.length = 126 ∧
      pr.nextIndex = 0 ∧ OwnerId.accepts pr.owner.text = true ∧ pr.timings.check = .ok () ∧
      checkPrefix "p" = .ok () ∧ pr.owner.HasRoom pr.nextIndex := by
    refine ⟨⟨MemoryStore.mainClient, .recommended, ⟨String.ofList (List.replicate 126 'a')⟩,
      .standard, 0⟩, ?_⟩
    decide +kernel
  obtain ⟨s, hs, hempty⟩ := Session.exists_lone
  obtain ⟨l, hl, -, hid, -, htaken⟩ := recognises_iff ho ht hp
  exact ⟨pr, l, s, hlen, hindex, ho, ht, hp, hl, hid.mpr hroom, hs, hempty,
    (htaken s hs hempty).1 hroom⟩

/-- A token of 127 bytes is accepted, but what is derived from it is not: the lock made under it does not
recognise its entries, and a call without a limit does not end, although the store is empty. -/
theorem not_recognises_under_long : ∃ (pr : Provider Nat) (l : Lock) (s : Session MemoryStore Nat),
    pr.owner.text = String.ofList (List.replicate 127 'a') ∧ pr.nextIndex = 0 ∧
      OwnerId.ofText pr.owner.text = .ok pr.owner ∧ pr.timings.check = .ok () ∧
      checkPrefix "p" = .ok () ∧ (pr.createLock "p").1 = .ok l ∧
      l.owner = pr.owner.child pr.nextIndex ∧ OwnerId.ofText l.owner.text ≠ .ok l.owner ∧
      (∀ sequence e, Entry.ofName (Entry.name ⟨"p", sequence, l.owner⟩) ≠ .ok e) ∧
      s.Lone ∧ s.store.live = [] ∧
      ∀ fuel, (Session.run fuel s pr.store (l.acquire none s.reading)).1 = none := by
  obtain ⟨pr, htext, hindex, hid, ho, ht, hp, hroom⟩ : ∃ pr : Provider Nat,
      pr.owner.text = String.ofList (List.replicate 127 'a') ∧ pr.nextIndex = 0 ∧
      OwnerId.ofText pr.owner.text = .ok pr.owner ∧ OwnerId.accepts pr.owner.text = true ∧
      pr.timings.check = .ok () ∧ checkPrefix "p" = .ok () ∧ ¬ pr.owner.HasRoom pr.nextIndex := by
    refine ⟨⟨MemoryStore.mainClient, .recommended, ⟨String.ofList (List.replicate 127 'a')⟩,
      .standard, 0⟩, ?_⟩
    decide +kernel
  obtain ⟨l, hl, hlock⟩ := createLock_eq ht hp
  obtain ⟨s, hs, hempty⟩ := Session.exists_lone
  have howner : l.owner = pr.owner.child pr.nextIndex := by
    rw [(Lock.eq_of_create hlock).1]
  have hrefused : ¬ OwnerId.accepts (pr.owner.child pr.nextIndex).text = true := by
    rw [OwnerId.accepts_child_iff ho]
    exact hroom
  refine ⟨pr, l, s, htext, hindex, hid, ht, hp, hl, howner, ?_, ?_, hs, hempty,
    hs.never_ends hlock hrefused pr.store⟩
  · rw [howner, ne_eq, OwnerId.ofText_eq_ok_iff, ← OwnerId.accepts_iff]
    exact fun h => hrefused h.2
  · intro sequence e
    rw [howner, ne_eq, Entry.ofName_eq_ok]
    exact (Entry.read_child_iff ho (Lock.eq_of_create hlock).2.1).2 hroom e

end Provider

/-! ## Locks that are made and taken at once -/

namespace Session

section

variable {σ Client : Type} [ObjectStore σ Client] {s s' : Session σ Client} {l l' : Lock} {t t' : Lock.Turn}
  {client : Client} {n fuel : Nat} {limit : WaitLimit} {now : Instant}

/-- A move leaves a call so that it can end as it should. -/
lemma Moves.settles (hm : Moves client t s t' s') (hc : (Member.ofTurn t now).Coherent) (h : Lock.Settles t) :
    (Member.ofTurn t' s'.clock.now).Coherent ∧ Lock.Settles t' := by
  have hstep : ∃ input : Input, input.GoesOn ∧
      (Member.ofTurn t now).Step input (Member.ofTurn t' s'.clock.now) := by
    cases hm with
    | @pause l d rest ended => exact ⟨.wake ended s'.reading, trivial, .wake rfl⟩
    | @request l phase answer => exact ⟨.answer phase answer s'.reading, trivial, .answer rfl⟩
  obtain ⟨input, hon, st⟩ := hstep
  obtain ⟨_, ⟨⟩, hs⟩ := st.settles hon hc ⟨t.2, rfl, h⟩
  exact ⟨st.coherent hc, hs⟩

lemma Goes.settles (hg : Goes client n t s t' s') (hc : (Member.ofTurn t now).Coherent) (h : Lock.Settles t) :
    Lock.Settles t' := by
  induction hg generalizing now with
  | refl => exact h
  | step hm _ ih =>
    obtain ⟨hc', h'⟩ := hm.settles hc h
    exact ih hc' h'

/-- A call that is said to have taken its lock has taken it. -/
theorem isHeld_of_acquired (hl : l.state ≠ .held)
    (hrun : Session.run fuel s client (l.acquire limit s.reading) = (some .acquired, l', s')) : l'.isHeld = true := by
  obtain ⟨n, -, hgoes⟩ := run_eq_iff.mp hrun
  have hidle : (⟨l, none, 0⟩ : Member).Coherent := ⟨fun _ => trivial, nofun⟩
  have hbegins : (⟨l, none, 0⟩ : Member).Step (.acquire limit s.reading)
      (.ofTurn (l.acquire limit s.reading) s.reading.now) := .acquire trivial
  have hsettles : Lock.Settles (l', .done .acquired) :=
    hgoes.settles (hbegins.coherent hidle) (Lock.acquire_settles hl)
  rw [Lock.isHeld, (hsettles.1 rfl).1]
  rfl

/-- A lock that is made and taken at once is held when it is handed out. -/
theorem lockPrefix_isHeld {p p' : Provider Client} {lockPrefix : String}
    (h : s.lockPrefix fuel p lockPrefix limit = (some (.ok (some l)), p', s')) : l.isHeld = true := by
  rw [Session.lockPrefix] at h
  rcases hcreate : p.createLock lockPrefix with ⟨e | l₀, p₀⟩
  · rw [hcreate] at h
    cases h
  · rw [hcreate] at h
    have hidle := Provider.state_of_createLock hcreate
    dsimp only [Session.acquire] at h
    rcases hrun : Session.run fuel { s with channel := none, calls := [] } p₀.store
      (l₀.acquire limit (Session.reading { s with channel := none, calls := [] })) with ⟨o, l₁, s₁⟩
    rw [hrun] at h
    rcases o with _ | _ | _ | _ | e <;> cases h
    exact isHeld_of_acquired (by simp [hidle]) hrun

end

/-- Whether a lock that is made on an empty store can be taken at once is again whether the token of the provider has
left room for its number. -/
theorem lockPrefix_on_empty {s : Session MemoryStore Nat} {pr : Provider Nat} {lockPrefix : String}
    (ho : OwnerId.accepts pr.owner.text = true) (ht : pr.timings.check = .ok ())
    (hp : checkPrefix lockPrefix = .ok ()) (h : s.Lone) (hempty : s.store.live = []) :
    (pr.owner.HasRoom pr.nextIndex → ∃ fuel l' s', (∀ more ≥ fuel,
        s.lockPrefix more pr lockPrefix none =
          (some (.ok (some l')), { pr with nextIndex := pr.nextIndex + 1 }, s')) ∧
      l'.isHeld = true ∧ s'.clock.now = s.clock.now + pr.timings.settling) ∧
    (¬ pr.owner.HasRoom pr.nextIndex → ∀ fuel, (s.lockPrefix fuel pr lockPrefix none).1 = none) := by
  obtain ⟨l, hfst, hlock⟩ := Provider.createLock_eq ht hp
  have hcreate : pr.createLock lockPrefix = (.ok l, { pr with nextIndex := pr.nextIndex + 1 }) := by
    rw [Provider.createLock, hp] at hfst ⊢
    exact Prod.ext hfst rfl
  have hlone : Session.Lone { s with channel := none, calls := [] } := ⟨h.hooks, rfl, h.prompt⟩
  rw [← OwnerId.accepts_child_iff ho]
  constructor
  · intro hroom
    obtain ⟨fuel, l', s', hrun, hheld, htime⟩ := hlone.taken_on_empty hlock hroom hempty pr.store
    refine ⟨fuel, l', { s' with channel := none }, fun more hmore => ?_, hheld, htime⟩
    rw [Session.lockPrefix, hcreate]
    dsimp only [Session.acquire]
    rw [hrun more hmore]
  · intro hroom fuel
    have hnone := hlone.never_ends hlock hroom pr.store fuel
    rw [Session.lockPrefix, hcreate]
    dsimp only [Session.acquire]
    generalize Session.run fuel { s with channel := none, calls := [] } pr.store
      (l.acquire none (Session.reading { s with channel := none, calls := [] })) = ended at hnone
    obtain ⟨o, l', s'⟩ := ended
    cases hnone
    rfl

end Session

end StoreLock
