import StoreLock.Proofs.Store.Objects

/-!
# A store without lag

What a store in memory holds for all who use it, where changes reach everyone at once and no call
fails: the objects that exist, with all that is on record of them (`MemoryStore.live`). Each call has
one equation for them. A listing shows their names and leaves them, a creation puts one in its place,
a deletion takes one away.
-/

namespace StoreLock.MemoryStore

/-- The objects that exist. -/
def live (s : MemoryStore) : List (String × ObjectRecord) :=
  s.objects.filter fun p => p.2.deleted.isNone

/-- The names of the objects that exist and start with a text. -/
def shown (s : MemoryStore) (start : String) : List String :=
  (s.live.filter fun p => Text.startsWith p.1 start).map (·.1)

/-- Whether changes reach everyone at once and every call is served. -/
structure Prompt (s : MemoryStore) : Prop where
  works : s.Works
  lag : s.lag = 0

variable {s : MemoryStore} {name n start : String} {o : ObjectRecord} {now : Instant} {client : Nat}
  {objects : List (String × ObjectRecord)}

lemma mem_shown : n ∈ s.shown start ↔ (∃ o, (n, o) ∈ s.live) ∧ Text.startsWith n start = true := by
  simp only [shown, List.mem_map, List.mem_filter, Prod.exists]
  constructor
  · intro h
    obtain ⟨m, o, hm, rfl⟩ := h
    exact ⟨⟨o, hm.1⟩, hm.2⟩
  · intro h
    obtain ⟨⟨o, ho⟩, hs⟩ := h
    exact ⟨n, o, ⟨ho, hs⟩, rfl⟩

lemma isKept_zero : isKept 0 now o = o.deleted.isNone := by
  rw [isKept]
  cases o.deleted with
  | none => rfl
  | some d => simp [propagated]

lemma isVisible_zero : isVisible 0 client now o = o.deleted.isNone := by
  rw [isVisible]
  cases o.deleted with
  | none => simp [propagated]
  | some d => simp [propagated]

/-- What is put in its place exists beside the others. -/
lemma filter_insert (ho : o.deleted = none) :
    (insert objects name o).filter (fun p => p.2.deleted.isNone) =
      insert (objects.filter fun p => p.2.deleted.isNone) name o := by
  simp only [insert, List.filter_append, List.filter_cons, ho, Option.isNone_none, if_true,
    List.filter_filter, Bool.and_comm]

/-- What is deleted exists no longer, and the others do as before. -/
lemma filter_markDeleted :
    (objects.map fun p => if p.1 = name then (p.1, markDeleted client now p.2) else p).filter
        (fun p => p.2.deleted.isNone) =
      (objects.filter fun p => p.2.deleted.isNone).filter fun p => p.1 ≠ name := by
  have marked (o : ObjectRecord) : (markDeleted client now o).deleted.isNone = false := by
    rw [markDeleted]
    cases ho : o.deleted with
    | none => rfl
    | some d => simp [ho]
  induction objects with
  | nil => rfl
  | cons p objects ih =>
    rw [List.map_cons, List.filter_cons, ih]
    by_cases hp : p.1 = name
    · cases hd : p.2.deleted.isNone <;> simp [hp, marked, hd]
    · cases hd : p.2.deleted.isNone <;> simp [hp, hd]

namespace Prompt

lemma list (h : s.Prompt) (client : Nat) (now : Instant) (start : String) :
    ∃ s', s.list client now start = (.ok (s.shown start), s') ∧ s'.Prompt ∧ s'.live = s.live := by
  obtain ⟨s', hs', hw, hl, ho⟩ := h.works.list client now start
  rw [h.lag] at hl ho
  simp only [isKept_zero] at ho
  refine ⟨s', ?_, ⟨hw, hl⟩, ?_⟩
  · rw [hs', seen, shown, live, h.lag]
    simp only [isKept_zero, isVisible_zero, List.filter_filter]
    congr 4
    funext p
    cases p.2.deleted.isNone <;> simp
  · rw [live, live, ho, List.filter_filter]
    simp only [Bool.and_self]

lemma create (h : s.Prompt) (client : Nat) (now : Instant) (name : String) (contents : ByteArray) :
    ∃ s', s.create client now name contents = (.ok (), s') ∧ s'.Prompt ∧
      s'.live = insert s.live name { contents, writer := client, createdAt := now } := by
  obtain ⟨s', hs', hw, hl, ho⟩ := h.works.create client now name contents
  refine ⟨s', hs', ⟨hw, hl.trans h.lag⟩, ?_⟩
  rw [live, ho]
  exact filter_insert rfl

lemma delete (h : s.Prompt) (client : Nat) (now : Instant) (name : String) :
    ∃ s', s.delete client now name = (.ok (), s') ∧ s'.Prompt ∧
      s'.live = s.live.filter fun p => p.1 ≠ name := by
  obtain ⟨s', hs', hw, hl, ho⟩ := h.works.delete client now name
  refine ⟨s', hs', ⟨hw, hl.trans h.lag⟩, ?_⟩
  rw [live, ho]
  exact filter_markDeleted

end Prompt

end StoreLock.MemoryStore
