import Mathlib
import StoreLock.Store.MemoryStore

/-!
# Objects of the store in memory

Two views of the store are enough to follow an object through the calls of all clients: whether its
name is on record at all, and whether the object that was created at a given time still exists.
`Alters` says what a call does to both views, and each call has a lemma that says which names it
touches. The listing of a client shows every object that exists and was created at least the lag ago
(`mem_list_of_hasObject`).
-/

namespace StoreLock.MemoryStore

/-- Some object of this name is on record, whether or not it exists. -/
def OnRecord (s : MemoryStore) (name : String) : Prop :=
  ∃ o, (name, o) ∈ s.objects

/-- The object of this name that was created at `time` exists. -/
def HasObject (s : MemoryStore) (name : String) (time : Instant) : Prop :=
  ∃ o, (name, o) ∈ s.objects ∧ o.deleted = none ∧ o.createdAt = time

/-- What becomes of the objects: only names in `added` are put on record, and only objects whose names
are in `removed` may be gone. -/
structure Alters (added removed : List String) (s s' : MemoryStore) : Prop where
  lag : s'.lag = s.lag
  onRecord : ∀ n, s'.OnRecord n → n ∈ added ∨ s.OnRecord n
  hasObject : ∀ n time, s.HasObject n time → n ∈ removed ∨ s'.HasObject n time

/-- Counting a call leaves the objects and the lag. -/
lemma begin_frame (s : MemoryStore) (kind : CallKind) :
    (s.begin kind).2.objects = s.objects ∧ (s.begin kind).2.lag = s.lag := by
  simp only [begin]
  split
  case isTrue => exact ⟨rfl, rfl⟩
  case isFalse => split <;> exact ⟨rfl, rfl⟩

/-- A record is put in the place of all others of its name. -/
lemma mem_insert {objects : List (String × ObjectRecord)} {name n : String} {o o' : ObjectRecord} :
    (n, o') ∈ insert objects name o ↔
      (n = name ∧ o' = o) ∨ (n ≠ name ∧ (n, o') ∈ objects) := by
  simp only [insert, List.mem_append, List.mem_filter, List.mem_cons, decide_eq_true_eq,
    Prod.mk.injEq]
  constructor
  -- The records before and behind it are those with other names.
  · rintro (⟨h, hlt⟩ | h | ⟨h, hlt⟩)
    · exact .inr ⟨ne_of_lt hlt, h⟩
    · exact .inl h
    · exact .inr ⟨ne_of_gt hlt, h⟩
  · rintro (h | ⟨hne, h⟩)
    · exact .inr (.inl h)
    · rcases lt_or_gt_of_ne hne with hlt | hlt
      · exact .inl ⟨h, hlt⟩
      · exact .inr (.inr ⟨h, hlt⟩)

variable {s s' : MemoryStore} {client : Nat} {now time : Instant} {name n start : String}
  {names added removed : List String} {contents : ByteArray} {answer : Except StoreError Unit}
  {listed : Except StoreError (List String)}

lemma Alters.of_eq (ho : s'.objects = s.objects) (hl : s'.lag = s.lag) : Alters [] [] s s' where
  lag := hl
  onRecord n := by
    rintro ⟨o, h⟩
    rw [ho] at h
    exact .inr ⟨o, h⟩
  hasObject n time := by
    rintro ⟨o, h, hd⟩
    rw [← ho] at h
    exact .inr ⟨o, h, hd⟩

lemma Alters.mono {added' removed' : List String} (h : Alters added removed s s')
    (ha : ∀ n ∈ added, n ∈ added') (hr : ∀ n ∈ removed, n ∈ removed') :
    Alters added' removed' s s' where
  lag := h.lag
  onRecord n hn := (h.onRecord n hn).imp_left (ha n)
  hasObject n time hn := (h.hasObject n time hn).imp_left (hr n)

/-- Creating an object either fails, or puts the new record in place. -/
lemma create_cases (h : s.create client now name contents = (answer, s')) :
    s'.lag = s.lag ∧
      ((∃ e, answer = .error e ∧ s'.objects = s.objects) ∨
        (answer = .ok () ∧ s'.objects =
          insert s.objects name { contents, writer := client, createdAt := now })) := by
  obtain ⟨ho, hl⟩ := begin_frame s .create
  rw [create] at h
  split at h
  case h_1 e s₁ hb =>
    cases h
    rw [hb] at ho hl
    exact ⟨hl, .inl ⟨e, rfl, ho⟩⟩
  case h_2 s₁ hb =>
    cases h
    rw [hb] at ho hl
    exact ⟨hl, .inr ⟨rfl, by rw [ho]⟩⟩

lemma create_error_alters {e : StoreError}
    (h : s.create client now name contents = (.error e, s')) : Alters [] [] s s' := by
  obtain ⟨hl, ⟨e', -, ho⟩ | ⟨ha, -⟩⟩ := create_cases h
  · exact .of_eq ho hl
  · cases ha

/-- A creation touches the objects of its name only. -/
lemma create_alters (h : s.create client now name contents = (answer, s')) :
    Alters [name] [name] s s' := by
  obtain ⟨hl, ⟨e, -, ho⟩ | ⟨-, ho⟩⟩ := create_cases h
  · exact (Alters.of_eq ho hl).mono nofun nofun
  · refine ⟨hl, ?_, ?_⟩
    · rintro n ⟨o, hn⟩
      rw [ho, mem_insert] at hn
      rcases hn with ⟨rfl, -⟩ | ⟨-, hn⟩
      · exact .inl (List.mem_singleton.mpr rfl)
      · exact .inr ⟨o, hn⟩
    · rintro n time ⟨o, hn, hd⟩
      by_cases hne : n = name
      · exact .inl (List.mem_singleton.mpr hne)
      · refine .inr ⟨o, ?_, hd⟩
        rw [ho, mem_insert]
        exact .inr ⟨hne, hn⟩

lemma hasObject_create (h : s.create client now name contents = (.ok (), s')) :
    s'.HasObject name now := by
  obtain ⟨-, ⟨e, he, -⟩ | ⟨-, ho⟩⟩ := create_cases h
  · cases he
  · refine ⟨{ contents, writer := client, createdAt := now }, ?_, rfl, rfl⟩
    rw [ho, mem_insert]
    exact .inl ⟨rfl, rfl⟩

/-- Deleting an object either fails, or marks the record of its name. -/
lemma delete_cases (h : s.delete client now name = (answer, s')) :
    s'.lag = s.lag ∧
      ((∃ e, answer = .error e ∧ s'.objects = s.objects) ∨
        (answer = .ok () ∧ s'.objects = s.objects.map fun p =>
          if p.1 = name then (p.1, markDeleted client now p.2) else p)) := by
  obtain ⟨ho, hl⟩ := begin_frame s .delete
  rw [delete] at h
  split at h
  case h_1 e s₁ hb =>
    cases h
    rw [hb] at ho hl
    exact ⟨hl, .inl ⟨e, rfl, ho⟩⟩
  case h_2 s₁ hb =>
    cases h
    rw [hb] at ho hl
    exact ⟨hl, .inr ⟨rfl, by rw [ho]⟩⟩

/-- A deletion touches the objects of its name only, and puts none on record. -/
lemma delete_alters (h : s.delete client now name = (answer, s')) : Alters [] [name] s s' := by
  obtain ⟨hl, ⟨e, -, ho⟩ | ⟨-, ho⟩⟩ := delete_cases h
  · exact (Alters.of_eq ho hl).mono nofun nofun
  · refine ⟨hl, ?_, ?_⟩
    · rintro n ⟨o, hn⟩
      rw [ho] at hn
      obtain ⟨⟨m, o'⟩, hm, e⟩ := List.mem_map.mp hn
      refine .inr ⟨o', ?_⟩
      split at e <;> cases e <;> exact hm
    · rintro n time ⟨o, hn, hd⟩
      by_cases hne : n = name
      · exact .inl (List.mem_singleton.mpr hne)
      · refine .inr ⟨o, ?_, hd⟩
        rw [ho]
        exact List.mem_map.mpr ⟨(n, o), hn, if_neg hne⟩

/-- Listing either fails, or shows what the client sees and drops what nobody sees any more. -/
lemma list_cases (h : s.list client now start = (listed, s')) :
    s'.lag = s.lag ∧
      ((∃ e, listed = .error e ∧ s'.objects = s.objects) ∨
        (s'.objects = s.objects.filter (fun p => isKept s.lag now p.2) ∧
          listed = .ok ((s'.objects.filter fun p =>
            Text.startsWith p.1 start && isVisible s.lag client now p.2).map (·.1)))) := by
  obtain ⟨ho, hl⟩ := begin_frame s .list
  rw [list] at h
  split at h
  case h_1 e s₁ hb =>
    cases h
    rw [hb] at ho hl
    exact ⟨hl, .inl ⟨e, rfl, ho⟩⟩
  case h_2 s₁ hb =>
    cases h
    rw [hb] at ho hl
    dsimp only at ho hl
    exact ⟨hl, .inr ⟨by rw [ho, hl], by rw [hl]⟩⟩

/-- Listing puts nothing on record and drops no object that exists. -/
lemma list_alters (h : s.list client now start = (listed, s')) : Alters [] [] s s' := by
  obtain ⟨hl, ⟨e, -, ho⟩ | ⟨ho, -⟩⟩ := list_cases h
  · exact .of_eq ho hl
  · refine ⟨hl, ?_, ?_⟩
    · rintro n ⟨o, hn⟩
      rw [ho] at hn
      exact .inr ⟨o, (List.mem_filter.mp hn).1⟩
    · rintro n time ⟨o, hn, hd, ht⟩
      refine .inr ⟨o, ?_, hd, ht⟩
      rw [ho]
      exact List.mem_filter.mpr ⟨hn, by simp [isKept, hd]⟩

lemma onRecord_of_mem_list (h : s.list client now start = (.ok names, s')) (hn : n ∈ names) :
    s.OnRecord n := by
  obtain ⟨-, ⟨e, he, -⟩ | ⟨ho, he⟩⟩ := list_cases h
  · cases he
  · cases he
    obtain ⟨⟨m, o⟩, hm, rfl⟩ := List.mem_map.mp hn
    rw [ho] at hm
    exact ⟨o, (List.mem_filter.mp (List.mem_filter.mp hm).1).1⟩

/-- An object that exists and was created at least the lag ago is listed to every client. -/
theorem mem_list_of_hasObject (h : s.list client now start = (.ok names, s'))
    (hs : s.HasObject n time) (hn : Text.startsWith n start = true) (ht : time + s.lag ≤ now) :
    n ∈ names := by
  obtain hr | ⟨o, ho, hd, ho'⟩ := (list_alters h).hasObject n time hs
  · cases hr
  obtain ⟨-, ⟨e, he, -⟩ | ⟨-, he⟩⟩ := list_cases h
  · cases he
  · cases he
    refine List.mem_map.mpr ⟨(n, o), List.mem_filter.mpr ⟨ho, ?_⟩, rfl⟩
    have hp : propagated s.lag o.createdAt now = true := by
      rw [propagated, decide_eq_true_eq, ho']
      lia
    simp [hn, isVisible, hp, hd]

/-! ## A store that works -/

/-- Whether the store serves every call. -/
structure Works (s : MemoryStore) : Prop where
  available : s.isUnavailable = false
  failures : ∀ kind, s.failures.get kind = 0

/-- The names that a client is shown. -/
def seen (s : MemoryStore) (client : Nat) (now : Instant) (start : String) : List String :=
  ((s.objects.filter fun p => isKept s.lag now p.2).filter fun p =>
    Text.startsWith p.1 start && isVisible s.lag client now p.2).map (·.1)

/-- A client is shown the names on record that it can see. -/
lemma mem_seen : n ∈ s.seen client now start ↔ ∃ o, (n, o) ∈ s.objects ∧ isKept s.lag now o = true ∧
    Text.startsWith n start = true ∧ isVisible s.lag client now o = true := by
  simp only [seen, List.mem_map, List.mem_filter, Bool.and_eq_true, Prod.exists]
  constructor
  · rintro ⟨m, o, ⟨⟨ho, hk⟩, hs, hv⟩, rfl⟩
    exact ⟨o, ho, hk, hs, hv⟩
  · rintro ⟨o, ho, hk, hs, hv⟩
    exact ⟨n, o, ⟨⟨ho, hk⟩, hs, hv⟩, rfl⟩

/-- A call of a store that works is let through. -/
lemma Works.begin (h : s.Works) (kind : CallKind) :
    ∃ s', s.begin kind = (none, s') ∧ s'.Works ∧ s'.objects = s.objects ∧ s'.lag = s.lag := by
  refine ⟨{ s with calls := s.calls.modify kind (· + 1) }, ?_, ⟨h.available, h.failures⟩, rfl, rfl⟩
  simp [MemoryStore.begin, h.available, h.failures]

lemma Works.list (h : s.Works) (client : Nat) (now : Instant) (start : String) :
    ∃ s', s.list client now start = (.ok (s.seen client now start), s') ∧ s'.Works ∧
      s'.lag = s.lag ∧ s'.objects = s.objects.filter fun p => isKept s.lag now p.2 := by
  obtain ⟨s₁, hb, hw, ho, hl⟩ := h.begin .list
  refine ⟨{ s₁ with objects := s₁.objects.filter fun p => isKept s₁.lag now p.2 }, ?_,
    ⟨hw.available, hw.failures⟩, hl, ?_⟩
  · rw [MemoryStore.list, hb, seen, ← ho, ← hl]
  · rw [ho, hl]

lemma Works.delete (h : s.Works) (client : Nat) (now : Instant) (name : String) :
    ∃ s', s.delete client now name = (.ok (), s') ∧ s'.Works ∧ s'.lag = s.lag ∧
      s'.objects = s.objects.map fun p =>
        if p.1 = name then (p.1, markDeleted client now p.2) else p := by
  obtain ⟨s₁, hb, hw, ho, hl⟩ := h.begin .delete
  refine ⟨{ s₁ with objects := s₁.objects.map fun p =>
      if p.1 = name then (p.1, markDeleted client now p.2) else p }, ?_,
    ⟨hw.available, hw.failures⟩, hl, ?_⟩
  · rw [MemoryStore.delete, hb]
  · rw [ho]

lemma Works.create (h : s.Works) (client : Nat) (now : Instant) (name : String)
    (contents : ByteArray) :
    ∃ s', s.create client now name contents = (.ok (), s') ∧ s'.Works ∧ s'.lag = s.lag ∧
      s'.objects = insert s.objects name { contents, writer := client, createdAt := now } := by
  obtain ⟨s₁, hb, hw, ho, hl⟩ := h.begin .create
  refine ⟨{ s₁ with
    objects := insert s₁.objects name { contents, writer := client, createdAt := now } }, ?_,
    ⟨hw.available, hw.failures⟩, hl, ?_⟩
  · rw [MemoryStore.create, hb]
  · rw [ho]

end StoreLock.MemoryStore
