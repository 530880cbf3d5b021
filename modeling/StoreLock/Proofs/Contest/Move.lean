import StoreLock.Proofs.Contest.Basic

/-!
# What a step of a contest moves

A step either moves one member and lets the store do what that member asked for (`Moves`), or moves
no member and leaves the objects alone that carry a member's name (`Rests`). `Step.cases` is the only
place where the rules of a step and the calls of the store are taken apart.
-/

namespace StoreLock.Contest

variable {ι : Type}

/-- Something happens to one member. The clock and the other members stay; only an entry that was
created is put on record, and only names that the member is deleting may be gone. -/
structure Moves (s : Contest ι) (i : ι) (input : Input) (s' : Contest ι) : Prop where
  step : (s.members i).Step input (s'.members i)
  others : ∀ j, j ≠ i → s'.members j = s.members j
  reading : input.reading.now = s.now
  now : s'.now = s.now
  lag : s'.store.lag = s.store.lag
  onRecord : ∀ n, s'.store.OnRecord n →
    s.store.OnRecord n ∨ ∃ e, input.created? = some e ∧ n = e.name
  hasObject : ∀ n time, s.store.HasObject n time →
    s'.store.HasObject n time ∨ n ∈ (s.members i).doomed ∨
      ∃ e, input.created? = some e ∧ n = e.name
  created : ∀ e, input.created? = some e → s'.store.HasObject e.name s.now
  listed : ∀ listed, input.listing? = some listed → ∀ n ∈ listed, s.store.OnRecord n
  visible : ∀ listed, input.listing? = some listed → ∀ n time, s.store.HasObject n time →
    Text.startsWith n (s.members i).lock.listing = true → time + s.store.lag ≤ s.now → n ∈ listed

/-- Nothing happens to the members. Time may pass, and objects that are no entry of a member may
come and go. -/
structure Rests (s s' : Contest ι) : Prop where
  members : s'.members = s.members
  now : s.now ≤ s'.now
  lag : s'.store.lag = s.store.lag
  onRecord : ∀ n, s'.store.OnRecord n → s.store.OnRecord n ∨ ∀ i, ¬ s.Owns i n
  hasObject : ∀ i n time, s.Owns i n → s.store.HasObject n time → s'.store.HasObject n time

/-- Another program touches only names that are no entry of a member. -/
lemma Rests.of_alters {s : Contest ι} {store : MemoryStore} {name : String} {added : List String}
    (hn : ∀ i, ¬ s.Owns i name) (ha : ∀ n ∈ added, n = name)
    (h : s.store.Alters added [name] store) : Rests s { s with store } where
  members := rfl
  now := Nat.le_refl _
  lag := h.lag
  onRecord n hr := by
    rcases h.onRecord n hr with hm | hm
    · rw [ha n hm]
      exact .inr hn
    · exact .inl hm
  hasObject i n time hi hs := by
    rcases h.hasObject n time hs with hm | hm
    · rw [List.mem_singleton.mp hm] at hi
      exact absurd hi (hn i)
    · exact hm

variable [DecidableEq ι] {s s' : Contest ι}

/-- An input that the store has no part in moves the member alone. -/
lemma Moves.of_step {i : ι} {input : Input} {m : Member} (st : (s.members i).Step input m)
    (hr : input.reading.now = s.now) (hl : input.listing? = none) (hc : input.created? = none) :
    Moves s i input (s.put i m) where
  step := by
    rw [put_members_self]
    exact st
  others _ := put_members_ne m
  reading := hr
  now := rfl
  lag := rfl
  onRecord _ h := .inl h
  hasObject _ _ h := .inl h
  created e h := by
    rw [hc] at h
    cases h
  listed l h := by
    rw [hl] at h
    cases h
  visible l h := by
    rw [hl] at h
    cases h

lemma listing?_refusal (phase : Lock.Phase) (e : StoreError) (r : Reading) :
    (Input.answer phase (phase.request.refusal e) r).listing? = none := by
  cases phase <;> rfl

lemma created?_refusal (phase : Lock.Phase) (e : StoreError) (r : Reading) :
    (Input.answer phase (phase.request.refusal e) r).created? = none := by
  cases phase <;> rfl

lemma listing?_of_not_isAnswer {input : Input} (h : ¬ input.IsAnswer) : input.listing? = none := by
  cases input with
  | answer => exact absurd trivial h
  | _ => rfl

lemma created?_of_not_isAnswer {input : Input} (h : ¬ input.IsAnswer) : input.created? = none := by
  cases input with
  | answer => exact absurd trivial h
  | _ => rfl

/-- A listing that the store serves shows what is on record, and everything that has existed for at
least the lag. -/
lemma Moves.of_list {i : ι} {phase : Lock.Phase} {answer : phase.request.Answer}
    {store : MemoryStore} {r : Reading} {m : Member} {listed : Except StoreError (List String)}
    (hl : s.store.list (s.client i) s.now (s.members i).lock.listing = (listed, store))
    (ha : ∀ names, (Input.answer phase answer r).listing? = some names → listed = .ok names)
    (hc : (Input.answer phase answer r).created? = none) (hr : r.now = s.now)
    (st : (s.members i).Step (.answer phase answer r) m) :
    Moves s i (.answer phase answer r) ({ s with store }.put i m) where
  step := by
    rw [put_members_self]
    exact st
  others _ := put_members_ne m
  reading := hr
  now := rfl
  lag := (MemoryStore.list_alters hl).lag
  onRecord n h := .inl (((MemoryStore.list_alters hl).onRecord n h).resolve_left nofun)
  hasObject n time h := .inl (((MemoryStore.list_alters hl).hasObject n time h).resolve_left nofun)
  created e h := by
    rw [hc] at h
    cases h
  listed names h := by
    cases ha names h
    exact fun _ => MemoryStore.onRecord_of_mem_list hl
  visible names h := by
    cases ha names h
    exact fun _ _ => MemoryStore.mem_list_of_hasObject hl

/-- A deletion that the store serves touches a name that the member is deleting. -/
lemma Moves.of_delete {i : ι} {phase : Lock.Phase} {answer : phase.request.Answer}
    {store : MemoryStore} {r : Reading} {m : Member} {name : String}
    {deleted : Except StoreError Unit}
    (hd : s.store.delete (s.client i) s.now name = (deleted, store))
    (hn : name ∈ (s.members i).doomed) (hl : (Input.answer phase answer r).listing? = none)
    (hc : (Input.answer phase answer r).created? = none) (hr : r.now = s.now)
    (st : (s.members i).Step (.answer phase answer r) m) :
    Moves s i (.answer phase answer r) ({ s with store }.put i m) where
  step := by
    rw [put_members_self]
    exact st
  others _ := put_members_ne m
  reading := hr
  now := rfl
  lag := (MemoryStore.delete_alters hd).lag
  onRecord n h := .inl (((MemoryStore.delete_alters hd).onRecord n h).resolve_left nofun)
  hasObject n time h := by
    rcases (MemoryStore.delete_alters hd).hasObject n time h with hm | hm
    · rw [List.mem_singleton.mp hm]
      exact .inr (.inl hn)
    · exact .inl hm
  created e h := by
    rw [hc] at h
    cases h
  listed l h := by
    rw [hl] at h
    cases h
  visible l h := by
    rw [hl] at h
    cases h

/-- A creation that the store serves either fails, or puts the entry on record. -/
lemma Moves.of_create {i : ι} {w : Window} {entry : Entry} {contents : ByteArray}
    {answer : Except StoreError Unit} {store : MemoryStore} {r : Reading} {m : Member}
    (hc : s.store.create (s.client i) s.now entry.name contents = (answer, store))
    (hr : r.now = s.now)
    (st : (s.members i).Step (.answer (.creating w entry contents) answer r) m) :
    Moves s i (.answer (.creating w entry contents) answer r) ({ s with store }.put i m) := by
  have hs : (s.members i).Step (.answer (.creating w entry contents) answer r)
      (({ s with store }.put i m).members i) := by
    rw [put_members_self]
    exact st
  have hl : (Input.answer (.creating w entry contents) answer r).listing? = none := rfl
  cases answer with
  | error e =>
    have h := MemoryStore.create_error_alters hc
    exact ⟨hs, fun _ => put_members_ne m, hr, rfl, h.lag,
      fun n hn => .inl ((h.onRecord n hn).resolve_left nofun),
      fun n time hn => .inl ((h.hasObject n time hn).resolve_left nofun), nofun, nofun, nofun⟩
  | ok u =>
    have h := MemoryStore.create_alters hc
    refine ⟨hs, fun _ => put_members_ne m, hr, rfl, h.lag, ?_, ?_, ?_, nofun, nofun⟩
    · intro n hn
      exact (h.onRecord n hn).symm.imp_right fun hm => ⟨entry, rfl, List.mem_singleton.mp hm⟩
    · intro n time hn
      rcases h.hasObject n time hn with hm | hm
      · exact .inr (.inr ⟨entry, rfl, List.mem_singleton.mp hm⟩)
      · exact .inl hm
    · rintro e ⟨⟩
      exact MemoryStore.hasObject_create hc

/-- What one step of a contest can do. -/
theorem Step.cases {e : Event ι} (st : Step s e s') :
    (∃ i input, e = .act i input ∧ Moves s i input s') ∨
      ((∀ i input, e ≠ .act i input) ∧ Rests s s') := by
  cases st with
  | tick =>
    exact .inr ⟨by simp, rfl, Nat.le_add_right _ _, rfl, fun _ h => .inl h, fun _ _ _ _ h => h⟩
  | act hn hr st =>
    exact .inl ⟨_, _, rfl,
      .of_step st hr (listing?_of_not_isAnswer hn) (created?_of_not_isAnswer hn)⟩
  | fail hr st => exact .inl ⟨_, _, rfl, .of_step st hr (listing?_refusal ..) (created?_refusal ..)⟩
  | create hn hc => exact .inr ⟨by simp, .of_alters hn (by simp) (MemoryStore.create_alters hc)⟩
  | delete hn hd => exact .inr ⟨by simp, .of_alters hn (by simp) (MemoryStore.delete_alters hd)⟩
  | setUnavailable =>
    exact .inr ⟨by simp, rfl, Nat.le_refl _, rfl, fun _ h => .inl h, fun _ _ _ _ h => h⟩
  | failNext =>
    exact .inr ⟨by simp, rfl, Nat.le_refl _, rfl, fun _ h => .inl h, fun _ _ _ _ h => h⟩
  | @serve i phase answer store r m hp hr st =>
    refine .inl ⟨i, _, rfl, ?_⟩
    -- What the member is doing is what the store was asked for.
    have hprog := st.progress_of_answer
    have hd : (s.members i).doomed = phase.doomed := by
      rw [Member.doomed, hprog]
    cases phase with
    | seeding w =>
      refine .of_list hp ?_ rfl hr st
      intro names h
      cases answer with
      | ok l => rw [Option.some.inj h]
      | error e => cases h
    | ranking w =>
      refine .of_list hp ?_ rfl hr st
      intro names h
      cases answer with
      | ok l => rw [Option.some.inj h]
      | error e => cases h
    | creating w entry contents => exact .of_create hp hr st
    | clearing limit n => exact .of_delete hp (by rw [hd]; exact List.mem_cons_self) rfl rfl hr st
    | reclaiming w st' n rest =>
      exact .of_delete hp (by rw [hd]; exact List.mem_cons_self) rfl rfl hr st
    | discarding w n => exact .of_delete hp (by rw [hd]; exact List.mem_cons_self) rfl rfl hr st
    | abandoning n o => exact .of_delete hp (by rw [hd]; exact List.mem_cons_self) rfl rfl hr st
    | releasing n => exact .of_delete hp (by rw [hd]; exact List.mem_cons_self) rfl rfl hr st

end StoreLock.Contest
