import StoreLock.Proofs.Store.Objects

/-!
# The past of a store in memory

What has happened at a store and what it has answered, whoever the clients were and whatever failed.
The past alone tells the record that a store would have of a name if it forgot nothing
(`MemoryStore.record?`). A store forgets records of deletions that have reached everyone, so what is on
record agrees with the past up to these (`MemoryStore.Remembers`), and a client is shown exactly the
names whose record in the past it can see (`MemoryStore.Remembers.mem_iff`).
-/

namespace StoreLock.MemoryStore

/-- What can happen at a store, with the answer. -/
inductive Event
  | create (client : Nat) (name : String) (contents : ByteArray) (answer : Except StoreError Unit)
  | delete (client : Nat) (name : String) (answer : Except StoreError Unit)
  | list (client : Nat) (start : String) (answer : Except StoreError (List String))
  | openClient (client : Nat)
  | setUnavailable (value : Bool)
  | failNext (kind : CallKind) (count : Nat)

/-- What happened, and when. -/
structure Moment where
  now : Instant
  event : Event

/-- What happens to a store at a moment. -/
inductive Step (s : MemoryStore) : Moment → MemoryStore → Prop where
  | create {now client name contents answer s'} :
    s.create client now name contents = (answer, s') →
    Step s ⟨now, .create client name contents answer⟩ s'
  | delete {now client name answer s'} :
    s.delete client now name = (answer, s') →
    Step s ⟨now, .delete client name answer⟩ s'
  | list {now client start answer s'} :
    s.list client now start = (answer, s') →
    Step s ⟨now, .list client start answer⟩ s'
  | openClient {now client s'} :
    s.openClient = (client, s') →
    Step s ⟨now, .openClient client⟩ s'
  | setUnavailable {now value} :
    Step s ⟨now, .setUnavailable value⟩ (s.setUnavailable value)
  | failNext {now kind count} :
    Step s ⟨now, .failNext kind count⟩ (s.failNext kind count)

/-- What has happened to a store, the latest first. -/
inductive Run (s : MemoryStore) : List Moment → MemoryStore → Prop where
  | nil : Run s [] s
  | cons {past m s' s''} :
    Run s past s' →
    s'.Step m s'' →
    Run s (m :: past) s''

/-- The clock never went back. -/
def InOrder (past : List Moment) : Prop :=
  past.Pairwise fun later earlier => earlier.now ≤ later.now

/-- An object of this name is created. -/
def Moment.Creates (m : Moment) (name : String) : Prop :=
  ∃ client contents, m.event = .create client name contents (.ok ())

/-- The object of this name is deleted, if there is one. -/
def Moment.Deletes (m : Moment) (name : String) : Prop :=
  ∃ client, m.event = .delete client name (.ok ())

/-- Something happened at some moment, and since then nothing that undoes it. -/
def Since (past : List Moment) (happened : Moment → List Moment → Prop) (undone : Moment → Prop) :
    Prop :=
  ∃ later m earlier, past = later ++ m :: earlier ∧ happened m earlier ∧ ∀ m' ∈ later, ¬ undone m'

/-- A client created an object at a time, and none of its name has been deleted since. -/
def Has (past : List Moment) (name : String) (client : Nat) (time : Instant) : Prop :=
  Since past (fun m _ => ∃ contents, m = ⟨time, .create client name contents (.ok ())⟩)
    (·.Deletes name)

/-- An object of this name exists. -/
def Exists (past : List Moment) (name : String) : Prop :=
  ∃ client time, Has past name client time

/-- A client created an object at a time, and none of its name has been created since. -/
def Made (past : List Moment) (name : String) (client : Nat) (time : Instant) : Prop :=
  Since past (fun m _ => ∃ contents, m = ⟨time, .create client name contents (.ok ())⟩)
    (·.Creates name)

/-- A client deleted an object at a time, and none of its name has been created since. -/
def Gone (past : List Moment) (name : String) (client : Nat) (time : Instant) : Prop :=
  Since past (fun m _ => m = ⟨time, .delete client name (.ok ())⟩) (·.Creates name)

/-- A client deleted an object that existed at a time, and none of its name has been created since. -/
def Lost (past : List Moment) (name : String) (client : Nat) (time : Instant) : Prop :=
  Since past (fun m earlier => m = ⟨time, .delete client name (.ok ())⟩ ∧ Exists earlier name)
    (·.Creates name)

/-- What a moment makes of the record of a name, where nothing is forgotten. -/
def Moment.record (m : Moment) (name : String) (before : Option ObjectRecord) :
    Option ObjectRecord :=
  match m.event with
  | .create client n contents (.ok ()) =>
    if n = name then some { contents, writer := client, createdAt := m.now } else before
  | .delete client n (.ok ()) => if n = name then before.map (markDeleted client m.now) else before
  | _ => before

/-- The record of a name that the past tells, where nothing is forgotten. -/
def record? (name : String) : List Moment → Option ObjectRecord
  | [] => none
  | m :: past => m.record name (record? name past)

/-- What a store has on record is what the past tells, up to deletions that have reached everyone. -/
structure Remembers (past : List Moment) (now : Instant) (s : MemoryStore) : Prop where
  sorted : s.objects.Pairwise fun p q => p.1 < q.1
  told : ∀ n o, (n, o) ∈ s.objects → record? n past = some o
  kept : ∀ n o, record? n past = some o → isKept s.lag now o = true → (n, o) ∈ s.objects

variable {s s' : MemoryStore} {past later earlier : List Moment} {m : Moment} {now now' time : Instant}
  {name n start : String} {client : Nat} {o : ObjectRecord} {contents : ByteArray}
  {objects : List (String × ObjectRecord)} {names : List String} {lag : Duration}

@[simp] lemma Moment.record_create {before : Option ObjectRecord} :
    Moment.record ⟨now, .create client name contents (.ok ())⟩ n before =
      if name = n then some { contents, writer := client, createdAt := now } else before :=
  rfl

@[simp] lemma Moment.record_delete {before : Option ObjectRecord} :
    Moment.record ⟨now, .delete client name (.ok ())⟩ n before =
      if name = n then before.map (markDeleted client now) else before :=
  rfl

/-! ## What is on record -/

lemma propagated_mono (h : propagated lag time now = true) (hn : now ≤ now') :
    propagated lag time now' = true := by
  rw [propagated, decide_eq_true_eq] at h ⊢
  lia

/-- What has to stay on record had to before. -/
lemma isKept_of_le (h : isKept lag now' o = true) (hn : now ≤ now') : isKept lag now o = true := by
  rw [isKept] at h ⊢
  cases hd : o.deleted with
  | none => rfl
  | some d =>
    rw [hd] at h
    rw [Bool.not_eq_true'] at h ⊢
    rw [← Bool.not_eq_true] at h ⊢
    exact mt (propagated_mono · hn) h

/-- What a client sees has to stay on record. -/
lemma isKept_of_isVisible (h : isVisible lag client now o = true) : isKept lag now o = true := by
  rw [isVisible, Bool.and_eq_true] at h
  rw [isKept]
  cases hd : o.deleted with
  | none => rfl
  | some d =>
    have hv := h.2
    rw [hd] at hv
    simp only [Bool.not_or, Bool.and_eq_true] at hv
    exact hv.2

lemma sorted_insert (h : objects.Pairwise fun p q => p.1 < q.1) :
    (insert objects name o).Pairwise fun p q => p.1 < q.1 := by
  rw [insert, List.pairwise_append, List.pairwise_cons]
  refine ⟨h.filter _, ⟨?_, h.filter _⟩, ?_⟩
  · intro q hq
    exact of_decide_eq_true (List.mem_filter.mp hq).2
  · intro p hp q hq
    have hlt : p.1 < name := of_decide_eq_true (List.mem_filter.mp hp).2
    rcases List.mem_cons.mp hq with rfl | hq
    · exact hlt
    · exact hlt.trans (of_decide_eq_true (List.mem_filter.mp hq).2)

/-- A change that keeps the names keeps their order. -/
lemma sorted_map {f : String × ObjectRecord → String × ObjectRecord}
    (h : objects.Pairwise fun p q => p.1 < q.1) (hf : ∀ p, (f p).1 = p.1) :
    (objects.map f).Pairwise fun p q => p.1 < q.1 := by
  rw [List.pairwise_map]
  simp only [hf]
  exact h

lemma isKept_markDeleted (h : isKept lag now (markDeleted client time o) = true) :
    isKept lag now o = true := by
  rw [markDeleted] at h
  cases hd : o.deleted with
  | none => rw [isKept, hd]
  | some d =>
    rw [hd] at h
    exact h

@[simp] lemma writer_markDeleted : (markDeleted client time o).writer = o.writer := by
  rw [markDeleted]
  cases o.deleted <;> rfl

@[simp] lemma createdAt_markDeleted : (markDeleted client time o).createdAt = o.createdAt := by
  rw [markDeleted]
  cases o.deleted <;> rfl

lemma deleted_markDeleted_ne_none : (markDeleted client time o).deleted ≠ none := by
  rw [markDeleted]
  cases hd : o.deleted with
  | none => simp
  | some d => simp [hd]

namespace Remembers

lemma empty (lag : Duration) (now : Instant) : Remembers [] now { lag } :=
  ⟨.nil, nofun, nofun⟩

lemma mono (h : Remembers past now s) (hn : now ≤ now') : Remembers past now' s :=
  ⟨h.sorted, h.told, fun n o ho hk => h.kept n o ho (isKept_of_le hk hn)⟩

/-- A moment that changes no record and no object. -/
lemma same (h : Remembers past now s) (hr : ∀ n before, m.record n before = before)
    (ho : s'.objects = s.objects) (hl : s'.lag = s.lag) : Remembers (m :: past) now s' := by
  refine ⟨?_, ?_, ?_⟩
  · rw [ho]
    exact h.sorted
  · intro n o hn
    rw [ho] at hn
    rw [record?, hr]
    exact h.told n o hn
  · intro n o hn hk
    rw [record?, hr] at hn
    rw [hl] at hk
    rw [ho]
    exact h.kept n o hn hk

lemma create (h : Remembers past now s) {answer : Except StoreError Unit}
    (hs : s.create client now name contents = (answer, s')) :
    Remembers (⟨now, .create client name contents answer⟩ :: past) now s' := by
  obtain ⟨hl, ⟨e, rfl, ho⟩ | ⟨rfl, ho⟩⟩ := create_cases hs
  case inl => exact h.same (fun _ _ => rfl) ho hl
  case inr =>
    refine ⟨?_, ?_, ?_⟩
    · rw [ho]
      exact sorted_insert h.sorted
    · intro n o hn
      rw [ho, mem_insert] at hn
      rw [record?, Moment.record_create]
      rcases hn with ⟨rfl, rfl⟩ | ⟨hne, hn⟩
      · exact if_pos rfl
      · exact (if_neg (Ne.symm hne)).trans (h.told n o hn)
    · intro n o hn hk
      rw [hl] at hk
      rw [ho, mem_insert]
      rw [record?, Moment.record_create] at hn
      by_cases hne : name = n
      · rw [if_pos hne, Option.some.injEq] at hn
        exact .inl ⟨hne.symm, hn.symm⟩
      · rw [if_neg hne] at hn
        exact .inr ⟨Ne.symm hne, h.kept n o hn hk⟩

lemma delete (h : Remembers past now s) {answer : Except StoreError Unit}
    (hs : s.delete client now name = (answer, s')) :
    Remembers (⟨now, .delete client name answer⟩ :: past) now s' := by
  obtain ⟨hl, ⟨e, rfl, ho⟩ | ⟨rfl, ho⟩⟩ := delete_cases hs
  case inl => exact h.same (fun _ _ => rfl) ho hl
  case inr =>
    refine ⟨?_, ?_, ?_⟩
    · rw [ho]
      apply sorted_map h.sorted
      intro p
      split <;> rfl
    · intro n o hn
      rw [ho] at hn
      obtain ⟨⟨n', o'⟩, hn', e⟩ := List.mem_map.mp hn
      have hr := h.told n' o' hn'
      rw [record?, Moment.record_delete]
      split at e
      case isTrue heq =>
        cases e
        dsimp only at heq ⊢
        rw [if_pos heq.symm, hr, Option.map_some]
      case isFalse hne =>
        cases e
        exact (if_neg (Ne.symm hne)).trans hr
    · intro n o hn hk
      rw [hl] at hk
      rw [ho, List.mem_map]
      rw [record?, Moment.record_delete] at hn
      by_cases hne : name = n
      · rw [if_pos hne, Option.map_eq_some_iff] at hn
        obtain ⟨o', ho', rfl⟩ := hn
        exact ⟨(n, o'), h.kept n o' ho' (isKept_markDeleted hk), if_pos hne.symm⟩
      · rw [if_neg hne] at hn
        exact ⟨(n, o), h.kept n o hn hk, if_neg (Ne.symm hne)⟩

lemma list (h : Remembers past now s) {answer : Except StoreError (List String)}
    (hs : s.list client now start = (answer, s')) :
    Remembers (⟨now, .list client start answer⟩ :: past) now s' := by
  obtain ⟨hl, ⟨e, rfl, ho⟩ | ⟨ho, rfl⟩⟩ := list_cases hs
  case inl => exact h.same (fun _ _ => rfl) ho hl
  case inr =>
    refine ⟨?_, ?_, ?_⟩
    · rw [ho]
      exact h.sorted.filter _
    · intro n o hn
      rw [ho] at hn
      exact h.told n o (List.mem_filter.mp hn).1
    · intro n o hn hk
      rw [hl] at hk
      rw [ho]
      exact List.mem_filter.mpr ⟨h.kept n o hn hk, hk⟩

/-- A client is shown the names that start with the text and whose record in the past it can see. -/
theorem mem_iff (h : Remembers past now s) (hs : s.list client now start = (.ok names, s')) :
    n ∈ names ↔ Text.startsWith n start = true ∧
      ∃ o, record? n past = some o ∧ isVisible s.lag client now o = true := by
  obtain ⟨-, ⟨e, he, -⟩ | ⟨ho, he⟩⟩ := list_cases hs
  · cases he
  cases he
  simp only [ho, List.mem_map, List.mem_filter, Bool.and_eq_true, Prod.exists, exists_and_right,
    exists_eq_right]
  constructor
  · intro hn
    obtain ⟨o, ⟨hn, -⟩, hstart, hv⟩ := hn
    exact ⟨hstart, o, h.told n o hn, hv⟩
  · intro hn
    obtain ⟨hstart, o, hr, hv⟩ := hn
    have hk := isKept_of_isVisible hv
    exact ⟨o, ⟨h.kept n o hr hk, hk⟩, hstart, hv⟩

/-- The names that a client is shown are in their order. -/
lemma list_sorted (h : Remembers past now s) (hs : s.list client now start = (.ok names, s')) :
    names.Pairwise (· < ·) := by
  obtain ⟨-, ⟨e, he, -⟩ | ⟨ho, he⟩⟩ := list_cases hs
  · cases he
  cases he
  rw [List.pairwise_map, ho]
  exact (h.sorted.filter _).filter _

end Remembers

lemma Step.lag_eq (h : s.Step m s') : s'.lag = s.lag := by
  cases h with
  | create hs => exact (create_cases hs).1
  | delete hs => exact (delete_cases hs).1
  | list hs => exact (list_cases hs).1
  | openClient hs =>
    cases hs
    rfl
  | setUnavailable => rfl
  | failNext => rfl

lemma Step.remembers (h : s.Step m s') (hr : Remembers past m.now s) :
    Remembers (m :: past) m.now s' := by
  cases h with
  | create hs => exact hr.create hs
  | delete hs => exact hr.delete hs
  | list hs => exact hr.list hs
  | openClient hs =>
    cases hs
    exact hr.same (fun _ _ => rfl) rfl rfl
  | setUnavailable => exact hr.same (fun _ _ => rfl) rfl rfl
  | failNext => exact hr.same (fun _ _ => rfl) rfl rfl

lemma Run.lag_eq (h : Run s past s') : s'.lag = s.lag := by
  induction h with
  | nil => rfl
  | cons _ hs ih => exact hs.lag_eq.trans ih

/-- Whatever happened to a store, it remembers as much of it as anyone can see. -/
theorem Run.remembers (h : Run { lag } past s) (ho : InOrder past) (hn : ∀ m ∈ past, m.now ≤ now) :
    Remembers past now s := by
  induction h generalizing now with
  | nil => exact .empty lag now
  | cons _ hs ih =>
    rw [InOrder, List.pairwise_cons] at ho
    rw [List.forall_mem_cons] at hn
    exact (hs.remembers (ih ho.2 ho.1)).mono hn.1

/-! ## What the past tells -/

section

variable {happened : Moment → List Moment → Prop} {undone : Moment → Prop} {c d : Nat} {t : Instant}

lemma not_since_nil : ¬ Since [] happened undone := by
  intro h
  obtain ⟨later, m, earlier, h, -⟩ := h
  simp at h

lemma since_cons : Since (m :: past) happened undone ↔
    happened m past ∨ (¬ undone m ∧ Since past happened undone) := by
  constructor
  · intro h
    obtain ⟨later, m', earlier, hp, hm, hu⟩ := h
    cases later with
    | nil =>
      cases hp
      exact .inl hm
    | cons m'' later =>
      cases hp
      rw [List.forall_mem_cons] at hu
      exact .inr ⟨hu.1, later, m', earlier, rfl, hm, hu.2⟩
  · intro h
    rcases h with hm | ⟨hm, later, m', earlier, rfl, hm', hu⟩
    · exact ⟨[], m, past, rfl, hm, nofun⟩
    · exact ⟨m :: later, m', earlier, rfl, hm', List.forall_mem_cons.mpr ⟨hm, hu⟩⟩

/-- What has happened since has happened at some moment of the past. -/
lemma Since.exists_mem (h : Since past happened undone) : ∃ m ∈ past, ∃ earlier, happened m earlier := by
  obtain ⟨later, m, earlier, rfl, hm, -⟩ := h
  exact ⟨m, List.mem_append_right _ List.mem_cons_self, earlier, hm⟩

lemma Moment.not_creates_of_delete : ¬ Creates ⟨time, .delete client name (.ok ())⟩ n := nofun

/-- An object of a name is created, or deleted, or neither. -/
lemma Moment.cases (m : Moment) (n : String) :
    (∃ client contents, m = ⟨m.now, .create client n contents (.ok ())⟩) ∨
      (∃ client, m = ⟨m.now, .delete client n (.ok ())⟩) ∨
      (¬ m.Creates n ∧ ¬ m.Deletes n ∧ ∀ before, m.record n before = before) := by
  by_cases hc : m.Creates n
  case pos =>
    obtain ⟨client, contents, h⟩ := hc
    exact .inl ⟨client, contents, by rw [← h]⟩
  by_cases hd : m.Deletes n
  case pos =>
    obtain ⟨client, h⟩ := hd
    exact .inr (.inl ⟨client, by rw [← h]⟩)
  refine .inr (.inr ⟨hc, hd, ?_⟩)
  intro before
  rw [record]
  split
  case h_1 client n' contents he =>
    apply if_neg
    intro hn
    subst hn
    exact hc ⟨client, contents, he⟩
  case h_2 client n' he =>
    apply if_neg
    intro hn
    subst hn
    exact hd ⟨client, he⟩
  case h_3 => rfl

lemma exists_cons : Exists (m :: past) n ↔ m.Creates n ∨ (¬ m.Deletes n ∧ Exists past n) := by
  simp only [Exists, Has, since_cons]
  constructor
  · intro h
    obtain ⟨c, t, ⟨contents, rfl⟩ | ⟨hd, h⟩⟩ := h
    · exact .inl ⟨c, contents, rfl⟩
    · exact .inr ⟨hd, c, t, h⟩
  · intro h
    rcases h with ⟨c, contents, he⟩ | ⟨hd, c, t, h⟩
    · exact ⟨c, m.now, .inl ⟨contents, by rw [← he]⟩⟩
    · exact ⟨c, t, .inr ⟨hd, h⟩⟩

/-- An object exists if its record does not say that it is deleted. -/
lemma exists_iff : Exists past n ↔ ∃ o, record? n past = some o ∧ o.deleted = none := by
  induction past with
  | nil => simp [Exists, Has, not_since_nil, record?]
  | cons m past ih =>
    rw [exists_cons, record?]
    rcases m.cases n with ⟨c, contents, hm⟩ | ⟨c, hm⟩ | ⟨hc, hd, hr⟩
    case inl =>
      rw [hm, Moment.record_create, if_pos rfl]
      exact iff_of_true (.inl ⟨c, contents, rfl⟩) ⟨_, rfl, rfl⟩
    case inr.inl =>
      rw [hm, Moment.record_delete, if_pos rfl]
      apply iff_of_false
      · intro h
        rcases h with h | ⟨hd, -⟩
        · exact Moment.not_creates_of_delete h
        · exact hd ⟨c, rfl⟩
      · intro h
        obtain ⟨o, ho, hd⟩ := h
        obtain ⟨o', -, rfl⟩ := Option.map_eq_some_iff.mp ho
        exact deleted_markDeleted_ne_none hd
    case inr.inr =>
      rw [hr, ← ih]
      simp only [hc, hd, not_false_eq_true, true_and, false_or]

/-- The record of a name says who made the last object of it, and when. -/
lemma made_iff : Made past n c t ↔
    ∃ o, record? n past = some o ∧ o.writer = c ∧ o.createdAt = t := by
  induction past with
  | nil => simp [Made, not_since_nil, record?]
  | cons m past ih =>
    rw [Made] at ih ⊢
    rw [since_cons, record?]
    rcases m.cases n with ⟨client, contents, hm⟩ | ⟨client, hm⟩ | ⟨hc, hd, hr⟩
    case inl =>
      rw [hm, Moment.record_create, if_pos rfl]
      constructor
      · intro h
        rcases h with ⟨contents', he⟩ | ⟨hc, -⟩
        · cases he
          exact ⟨_, rfl, rfl, rfl⟩
        · exact absurd ⟨client, contents, rfl⟩ hc
      · intro h
        obtain ⟨o, ho, rfl, rfl⟩ := h
        cases ho
        exact .inl ⟨contents, rfl⟩
    case inr.inl =>
      rw [hm, Moment.record_delete, if_pos rfl, ih]
      constructor
      · intro h
        rcases h with ⟨contents, he⟩ | ⟨-, o, ho, hw, ht⟩
        · cases he
        · refine ⟨markDeleted client m.now o, ?_, ?_, ?_⟩
          · rw [ho, Option.map_some]
          · rw [writer_markDeleted, hw]
          · rw [createdAt_markDeleted, ht]
      · intro h
        obtain ⟨o, ho, hw, ht⟩ := h
        obtain ⟨o', ho', rfl⟩ := Option.map_eq_some_iff.mp ho
        rw [writer_markDeleted] at hw
        rw [createdAt_markDeleted] at ht
        exact .inr ⟨Moment.not_creates_of_delete, o', ho', hw, ht⟩
    case inr.inr =>
      rw [hr, ← ih]
      constructor
      · intro h
        rcases h with ⟨contents, he⟩ | ⟨-, h⟩
        · exact absurd ⟨c, contents, by rw [he]⟩ hc
        · exact h
      · intro h
        exact .inr ⟨hc, h⟩

/-- The record of a name says who deleted the last object of it first, and when. -/
lemma lost_iff : Lost past n d t ↔ ∃ o, record? n past = some o ∧ o.deleted = some (d, t) := by
  induction past with
  | nil => simp [Lost, not_since_nil, record?]
  | cons m past ih =>
    rw [Lost] at ih ⊢
    rw [since_cons, record?]
    rcases m.cases n with ⟨client, contents, hm⟩ | ⟨client, hm⟩ | ⟨hc, hd, hr⟩
    case inl =>
      rw [hm, Moment.record_create, if_pos rfl]
      apply iff_of_false
      · intro h
        rcases h with ⟨he, -⟩ | ⟨hc, -⟩
        · cases he
        · exact hc ⟨client, contents, rfl⟩
      · intro h
        obtain ⟨o, ho, hd⟩ := h
        cases ho
        cases hd
    case inr.inl =>
      rw [hm, Moment.record_delete, if_pos rfl, ih, exists_iff]
      constructor
      · intro h
        rcases h with ⟨he, o, ho, hd⟩ | ⟨-, o, ho, hd⟩
        · cases he
          exact ⟨_, by rw [ho, Option.map_some], by rw [markDeleted, hd]⟩
        · exact ⟨_, by rw [ho, Option.map_some], by rw [markDeleted, hd]; exact hd⟩
      · intro h
        obtain ⟨o, ho, hd⟩ := h
        obtain ⟨o', ho', rfl⟩ := Option.map_eq_some_iff.mp ho
        cases ho'd : o'.deleted with
        | none =>
          rw [markDeleted, ho'd] at hd
          cases hd
          exact .inl ⟨rfl, o', ho', ho'd⟩
        | some d' =>
          rw [markDeleted, ho'd] at hd
          exact .inr ⟨Moment.not_creates_of_delete, o', ho', hd⟩
    case inr.inr =>
      rw [hr, ← ih]
      constructor
      · intro h
        rcases h with ⟨he, -⟩ | ⟨-, h⟩
        · exact absurd ⟨d, by rw [he]⟩ hd
        · exact h
      · intro h
        exact .inr ⟨hc, h⟩

lemma Made.mem (h : Made past n c t) : ∃ m ∈ past, m.now = t := by
  obtain ⟨m, hm, -, contents, rfl⟩ := h.exists_mem
  exact ⟨_, hm, rfl⟩

lemma Lost.mem (h : Lost past n d t) : ∃ m ∈ past, m.now = t := by
  obtain ⟨m, hm, earlier, rfl, -⟩ := h.exists_mem
  exact ⟨_, hm, rfl⟩

/-- What is lost exists no longer. -/
lemma Lost.not_exists (h : Lost past n d t) : ¬ Exists past n := by
  intro he
  obtain ⟨o, ho, hd⟩ := lost_iff.mp h
  obtain ⟨o', ho', hd'⟩ := exists_iff.mp he
  cases ho.symm.trans ho'
  cases hd.symm.trans hd'

end

/-- Whose creations have reached a client: its own, and those that are at least the lag ago. -/
def Reached (lag : Duration) (client : Nat) (now : Instant) (other : Nat) (time : Instant) : Prop :=
  other = client ∨ time + lag ≤ now

lemma reached_iff {other : Nat} (h : time ≤ now) :
    (other == client || propagated lag time now) = true ↔ Reached lag client now other time := by
  rw [Bool.or_eq_true, beq_iff_eq, propagated, decide_eq_true_eq, Reached]
  lia

/-- A client is shown a name if the last creation of it has reached the client, and its deletion, if there
was one, has not. -/
theorem Run.mem_list_iff (h : Run { lag } past s) (ho : InOrder past) (hn : ∀ m ∈ past, m.now ≤ now)
    (hs : s.list client now start = (.ok names, s')) :
    n ∈ names ↔ Text.startsWith n start = true ∧
      (∃ c t, Made past n c t ∧ Reached lag client now c t) ∧
      (Exists past n ∨ ∃ d t, Lost past n d t ∧ ¬ Reached lag client now d t) := by
  have hlag : s.lag = lag := h.lag_eq
  have upTo {t : Instant} (ht : ∃ m ∈ past, m.now = t) : t ≤ now := by
    obtain ⟨m, hm, rfl⟩ := ht
    exact hn m hm
  rw [(h.remembers ho hn).mem_iff hs, hlag]
  apply and_congr_right'
  constructor
  · intro hv
    obtain ⟨o, hr, hv⟩ := hv
    have hmade : Made past n o.writer o.createdAt := made_iff.mpr ⟨o, hr, rfl, rfl⟩
    rw [isVisible, Bool.and_eq_true, reached_iff (upTo hmade.mem)] at hv
    refine ⟨⟨_, _, hmade, hv.1⟩, ?_⟩
    cases hd : o.deleted with
    | none => exact .inl (exists_iff.mpr ⟨o, hr, hd⟩)
    | some d =>
      have hlost : Lost past n d.1 d.2 := lost_iff.mpr ⟨o, hr, hd⟩
      have hv := hv.2
      rw [hd, Bool.not_eq_true', ← Bool.not_eq_true, reached_iff (upTo hlost.mem)] at hv
      exact .inr ⟨d.1, d.2, hlost, hv⟩
  · intro hv
    obtain ⟨⟨c, t, hmade, hc⟩, hv⟩ := hv
    have hct := upTo hmade.mem
    obtain ⟨o, hr, rfl, rfl⟩ := made_iff.mp hmade
    refine ⟨o, hr, ?_⟩
    rw [isVisible, Bool.and_eq_true, reached_iff hct]
    refine ⟨hc, ?_⟩
    rcases hv with hv | ⟨d, t, hlost, hd⟩
    · obtain ⟨o', hr', hd⟩ := exists_iff.mp hv
      cases hr.symm.trans hr'
      rw [hd]
    · have hdt := upTo hlost.mem
      obtain ⟨o', hr', ho'⟩ := lost_iff.mp hlost
      cases hr.symm.trans hr'
      rw [ho', Bool.not_eq_true', ← Bool.not_eq_true, reached_iff hdt]
      exact hd

end StoreLock.MemoryStore
