import StoreLock.Proofs.Lock.Poll
import StoreLock.Proofs.Lock.Tidy
import StoreLock.Proofs.Store.Objects

/-!
# What a lock leaves in the store

A lock and the names of the objects in its store, where the store does what it says it has done and
deletes what it is asked to delete (`Tenancy`). Everyone else may delete anything, and create whatever
is not an entry of the lock's owner. The store in memory does what it says
(`MemoryStore.existing_perform`); that no deletion fails is a condition on the run.

What carries the argument is that every entry of the owner in the store is known to the lock: it is
the entry of the attempt, or the one that is just being deleted (`Tenancy.Accounted`). A tidy lock has
never more than one of these.
-/

namespace StoreLock

/-- Whether a name is that of an entry of this owner in the queue of a prefix. -/
def Entry.IsOwned (lockPrefix : String) (owner : OwnerId) (n : String) : Prop :=
  ∃ e, Entry.read n = .ok e ∧ e.lockPrefix = lockPrefix ∧ e.owner = owner

namespace Request

/-- What becomes of the names of the objects in a store by a request with this answer. -/
def effect : (request : Request) → request.Answer → Set String → Set String
  | .list, _, objects => objects
  | .create name _, .ok _, objects => insert name objects
  | .create _ _, .error _, objects => objects
  | .delete name, .ok _, objects => objects \ {name}
  | .delete _, .error _, objects => objects

/-- Whether a request is to delete an object, and has failed. -/
def IsFailedDelete : (request : Request) → request.Answer → Prop
  | .delete _, .error _ => True
  | _, _ => False

end Request

namespace MemoryStore

/-- The names of the objects that exist. -/
def existing (s : MemoryStore) : Set String :=
  { n | ∃ o, (n, o) ∈ s.objects ∧ o.deleted = none }

variable {s : MemoryStore} {client : Nat} {now : Instant} {name n listing : String}
  {contents : ByteArray}

lemma mem_existing : n ∈ s.existing ↔ ∃ o, (n, o) ∈ s.objects ∧ o.deleted = none :=
  Iff.rfl

lemma existing_create : (s.create client now name contents).2.existing =
    (Request.create name contents).effect (s.create client now name contents).1 s.existing := by
  obtain ⟨-, ⟨e, ha, ho⟩ | ⟨ha, ho⟩⟩ :=
    create_cases (s := s) (Prod.eta (s.create client now name contents)).symm
  · rw [ha, existing, ho]
    rfl
  · rw [ha]
    ext n
    rw [mem_existing, ho, Request.effect, Set.mem_insert_iff, mem_existing]
    by_cases hn : n = name <;> simp [mem_insert, hn]

lemma existing_delete : (s.delete client now name).2.existing =
    (Request.delete name).effect (s.delete client now name).1 s.existing := by
  obtain ⟨ho, -⟩ := begin_frame s .delete
  rw [delete]
  split
  case h_1 e s₁ hb =>
    rw [hb] at ho
    rw [existing, ho]
    rfl
  case h_2 s₁ hb =>
    rw [hb] at ho
    have marked (o : ObjectRecord) : (markDeleted client now o).deleted ≠ none := by
      rw [markDeleted]
      split
      case h_1 => exact Option.some_ne_none _
      case h_2 hd => simp [hd]
    ext n
    rw [Request.effect, Set.mem_sdiff, Set.mem_singleton_iff, mem_existing, mem_existing, ← ho]
    constructor
    · rintro ⟨o, hn, hd⟩
      obtain ⟨⟨n', o'⟩, hmem, heq⟩ := List.mem_map.mp hn
      split at heq
      case isTrue =>
        cases heq
        exact (marked o' hd).elim
      case isFalse hne =>
        cases heq
        exact ⟨⟨o, hmem, hd⟩, hne⟩
    · rintro ⟨⟨o, hn, hd⟩, hne⟩
      exact ⟨o, List.mem_map.mpr ⟨(n, o), hn, if_neg hne⟩, hd⟩

lemma existing_list : (s.list client now name).2.existing = s.existing := by
  obtain ⟨-, ⟨e, -, ho⟩ | ⟨ho, -⟩⟩ := list_cases (s := s) (Prod.eta (s.list client now name)).symm
  · rw [existing, ho]
    rfl
  · ext n
    rw [mem_existing, mem_existing, ho]
    constructor
    · rintro ⟨o, hn, hd⟩
      exact ⟨o, (List.mem_filter.mp hn).1, hd⟩
    · rintro ⟨o, hn, hd⟩
      exact ⟨o, List.mem_filter.mpr ⟨hn, by simp [isKept, hd]⟩, hd⟩

/-- The store in memory does what it says it has done. -/
theorem existing_perform (request : Request) :
    (ObjectStore.perform s client now listing request).2.existing =
      request.effect (ObjectStore.perform s client now listing request).1 s.existing := by
  cases request with
  | list => exact existing_list
  | create name contents => exact existing_create
  | delete name => exact existing_delete

end MemoryStore

namespace Input

/-- What has become of the names of the objects in the store when an input happens. -/
def effect : Input → Set String → Set String
  | .answer phase a _ => phase.request.effect a
  | _ => id

end Input

/-- A lock in its store. -/
structure Tenancy where
  /-- The lock and its call. -/
  member : Member
  /-- The names of the objects in the store. -/
  objects : Set String

namespace Tenancy

/-- What may happen to the lock: no deletion fails, and no call is dropped while it waits for the
store. -/
structure Orderly (m : Member) (input : Input) : Prop where
  deletes : ∀ phase a r, input = .answer phase a r → ¬ phase.request.IsFailedDelete a
  drops : ∀ r phase, input = .drop r → m.progress ≠ some (.request phase)

/-- What happens: something to the lock, or another deletes or creates an object. -/
inductive Step (lockPrefix : String) (owner : OwnerId) (t : Tenancy) : Tenancy → Prop where
  | member {input m} :
    Orderly t.member input →
    t.member.Step input m →
    Step lockPrefix owner t ⟨m, input.effect t.objects⟩
  | deletes {n} :
    Step lockPrefix owner t ⟨t.member, t.objects \ {n}⟩
  | creates {n} :
    ¬ Entry.IsOwned lockPrefix owner n →
    Step lockPrefix owner t ⟨t.member, insert n t.objects⟩

/-- Every entry of the owner in the store is that of the attempt, or is just being deleted. -/
structure Accounted (lockPrefix : String) (owner : OwnerId) (t : Tenancy) : Prop where
  coherent : t.member.Coherent
  tidy : t.member.Tidy
  known : ∀ n ∈ t.objects, Entry.IsOwned lockPrefix owner n →
    t.member.lock.entryName? = some n ∨ t.member.leaving? = some n

variable {lockPrefix : String} {owner : OwnerId} {t t' : Tenancy} {m m' : Member} {input : Input}
  {n : String} {objects : Set String}

lemma entryName?_eq_none {l : Lock} (h : l.attempt = none) : l.entryName? = none := by
  rw [Lock.entryName?, h]
  rfl

lemma leaving?_of_isResting (h : m.IsResting) : m.leaving? = none := by
  rcases h.progress_cases with hp | ⟨o, hp⟩ <;> rw [Member.leaving?, hp]

lemma Accounted.entryName?_eq (h : Accounted lockPrefix owner t) (hl : t.member.leaving? = none)
    (hn : n ∈ t.objects) (hown : Entry.IsOwned lockPrefix owner n) :
    t.member.lock.entryName? = some n := by
  refine (h.known n hn hown).resolve_right ?_
  rw [hl]
  nofun

/-- While an own entry is being deleted, there is no other. -/
lemma Accounted.eq_of_leaving (h : Accounted lockPrefix owner t) {name : String}
    (hl : t.member.leaving? = some name) (hn : n ∈ t.objects)
    (hown : Entry.IsOwned lockPrefix owner n) : n = name := by
  have hknown := h.known n hn hown
  rw [entryName?_eq_none (h.tidy.leaving name hl), hl] at hknown
  rcases hknown with hknown | hknown <;> cases hknown
  rfl

lemma Accounted.told_of_answer (h : Accounted lockPrefix owner t) {phase : Lock.Phase}
    {a : phase.request.Answer} {r : Reading} (hp : t.member.progress = some (.request phase))
    (hd : ¬ phase.request.IsFailedDelete a) (hn : n ∈ phase.request.effect a t.objects)
    (hown : Entry.IsOwned lockPrefix owner n) :
    (t.member.lock.told (.answer phase a r)).entryName? = some n := by
  have hl : t.member.leaving? = phase.own? := by
    rw [Member.leaving?, hp]
  cases phase with
  | seeding w =>
    have hknown := h.entryName?_eq hl hn hown
    cases a with
    | ok listed => rwa [Lock.told, Lock.entryName?, Lock.observe_attempt]
    | error e => exact hknown
  | creating w entry contents =>
    cases a with
    | ok u =>
      rcases hn with rfl | hn
      · rfl
      · -- While a new entry is being created, there is none.
        have hdrawing : t.member.IsDrawing := by
          rw [Member.IsDrawing, hp]
          trivial
        have hknown := h.entryName?_eq hl hn hown
        rw [entryName?_eq_none (h.tidy.drawing hdrawing)] at hknown
        cases hknown
    | error e => exact h.entryName?_eq hl hn hown
  | ranking w =>
    have hknown := h.entryName?_eq hl hn hown
    cases a with
    | ok listed => rwa [Lock.told, Lock.entryName?, Lock.observe_attempt]
    | error e => exact hknown
  | reclaiming w st name rest =>
    cases a with
    | ok u => exact h.entryName?_eq hl hn.1 hown
    | error e => exact (hd trivial).elim
  | _ =>
    -- The own entry has been deleted, and there was no other.
    cases a with
    | ok u => exact (hn.2 (h.eq_of_leaving hl hn.1 hown)).elim
    | error e => exact (hd trivial).elim

/-- By every input a lock is told of all of its own entries that are in the store by then. -/
lemma Accounted.told (h : Accounted lockPrefix owner t) (ho : Orderly t.member input)
    (st : t.member.Step input m) (hn : n ∈ input.effect t.objects)
    (hown : Entry.IsOwned lockPrefix owner n) :
    (t.member.lock.told input).entryName? = some n := by
  cases st with
  | acquire hrest => exact h.entryName?_eq (leaving?_of_isResting hrest) hn hown
  | release hrest => exact h.entryName?_eq (leaving?_of_isResting hrest) hn hown
  | wake hp =>
    refine h.entryName?_eq ?_ hn hown
    rw [Member.leaving?, hp]
  | @drop r =>
    refine h.entryName?_eq ?_ hn hown
    rw [Member.leaving?]
    split
    case h_1 phase hp => exact (ho.drops r phase rfl hp).elim
    case h_2 => rfl
  | @answer phase a r hp => exact h.told_of_answer hp (ho.deletes phase a r rfl) hn hown

/-- Nothing that happens leaves an entry in the store that is not accounted for. -/
lemma Accounted.step (h : Accounted lockPrefix owner t) (st : Step lockPrefix owner t t') :
    Accounted lockPrefix owner t' := by
  cases st with
  | member ho st =>
    refine ⟨st.coherent h.coherent, st.tidy h.tidy, ?_⟩
    intro n hn hown
    have htold := h.told ho st hn hown
    obtain ⟨a, ha, rfl⟩ := Option.map_eq_some_iff.mp htold
    -- The attempt is kept, or its entry is handed over to be deleted.
    cases st.hands h.coherent with
    | keeps ha' _ _ =>
      left
      rw [Lock.entryName?, ha', ha]
      rfl
    | leaves ha' _ _ hl =>
      rw [ha] at ha'
      cases ha'
      exact .inr hl
  | deletes => exact ⟨h.coherent, h.tidy, fun n hn => h.known n hn.1⟩
  | creates hnot =>
    refine ⟨h.coherent, h.tidy, fun n hn hown => ?_⟩
    rcases hn with rfl | hn
    · exact (hnot hown).elim
    · exact h.known n hn hown

lemma accounted {timings : Timings} {strategy : Strategy} {l : Lock}
    (hl : Lock.create lockPrefix owner timings strategy = .ok l)
    (hnone : ∀ n ∈ objects, ¬ Entry.IsOwned lockPrefix owner n)
    (run : Relation.ReflTransGen (Step lockPrefix owner) ⟨{ lock := l }, objects⟩ t) :
    Accounted lockPrefix owner t := by
  induction run with
  | refl =>
    obtain ⟨rfl, -, -⟩ := Lock.eq_of_create hl
    refine ⟨⟨fun _ => trivial, False.elim⟩, ⟨False.elim, fun _ => rfl, fun _ => rfl, nofun⟩, ?_⟩
    exact fun n hn hown => (hnone n hn hown).elim
  | tail _ st ih => exact ih.step st

/-- A lock has at most one entry in the store at any time. While it is held and while its call pauses,
that is the entry of the attempt, and there is none when a lock is left idle. -/
theorem at_most_one_entry {timings : Timings} {strategy : Strategy} {l : Lock}
    (hl : Lock.create lockPrefix owner timings strategy = .ok l)
    (hnone : ∀ n ∈ objects, ¬ Entry.IsOwned lockPrefix owner n)
    (run : Relation.ReflTransGen (Step lockPrefix owner) ⟨{ lock := l }, objects⟩ t) :
    (∀ n ∈ t.objects, ∀ n' ∈ t.objects, Entry.IsOwned lockPrefix owner n →
        Entry.IsOwned lockPrefix owner n' → n = n') ∧
      (t.member.lock.state = .held ∨ (∃ d rest, t.member.progress = some (.pause d rest)) →
        ∀ n ∈ t.objects, Entry.IsOwned lockPrefix owner n →
          t.member.lock.entryName? = some n) ∧
      (t.member.IsResting → t.member.lock.state = .idle →
        ∀ n ∈ t.objects, ¬ Entry.IsOwned lockPrefix owner n) := by
  have h := accounted hl hnone run
  refine ⟨?_, ?_, ?_⟩
  · intro n hn n' hn' hown hown'
    cases hleave : t.member.leaving? with
    | some name => rw [h.eq_of_leaving hleave hn hown, h.eq_of_leaving hleave hn' hown']
    | none =>
      have hname := h.entryName?_eq hleave hn hown
      rw [h.entryName?_eq hleave hn' hown'] at hname
      cases hname
      rfl
  · intro hstate n hn hown
    refine h.entryName?_eq ?_ hn hown
    rcases hstate with hs | ⟨d, rest, hp⟩
    · exact leaving?_of_isResting (h.coherent.resting hs)
    · rw [Member.leaving?, hp]
  · intro hrest hidle n hn hown
    have hname := h.entryName?_eq (leaving?_of_isResting hrest) hn hown
    rw [entryName?_eq_none (h.tidy.idle hidle)] at hname
    cases hname

/-- A history of the lock is a run in its store. -/
lemma reaches_of_history {steps : List Taken} (h : Member.History Orderly m steps)
    (objects : Set String) :
    Relation.ReflTransGen (Step lockPrefix owner) ⟨m, objects⟩
      ⟨m.after steps, steps.foldr (fun t => t.input.effect) objects⟩ := by
  induction h with
  | nil => exact .refl
  | cons _ ho st ih => exact ih.tail (.member ho st)

lemma orderly_of_poll {l : Lock} {limit : WaitLimit} {listed listed' : List String} {e : Entry}
    {now late : Instant} :
    ∀ s ∈ Member.poll l limit listed listed' e now late, ∀ m, Orderly m s.input := by
  intro s hs m
  simp only [Member.poll, List.mem_cons, List.not_mem_nil, or_false] at hs
  rcases hs with rfl | rfl | rfl | rfl | rfl <;>
  · refine ⟨fun phase a r hi => ?_, fun r phase hi => ?_⟩
    · cases hi <;> exact id
    · cases hi

lemma orderly_of_deleted {n : String} {r : Reading} :
    Orderly m (.answer (.releasing n) (.ok ()) r) := by
  refine ⟨fun phase a r' hi => ?_, fun r' phase hi => ?_⟩
  · cases hi
    exact id
  · cases hi

/-- A lock that is held can be given back, and then it is idle. -/
lemma exists_released {a : Attempt} (hheld : m.lock.state = .held) (hrest : m.IsResting)
    (ha : m.lock.attempt = some a) (objects : Set String) (r : Reading) :
    ∃ m', Relation.ReflTransGen (Step lockPrefix owner) ⟨m, objects⟩ ⟨m', objects \ {a.entry.name}⟩ ∧
      m'.IsResting ∧ m'.lock.state = .idle := by
  let l : Lock := { m.lock.withoutAttempt with state := .idle }
  have hrelease : Member.ofTurn m.lock.release r.now = ⟨l, some (.request (.releasing a.entry.name)), r.now⟩ := by
    rw [Lock.release, if_pos hheld, ha]
    rfl
  have hasks : Step lockPrefix owner ⟨m, objects⟩
      ⟨⟨l, some (.request (.releasing a.entry.name)), r.now⟩, objects⟩ := by
    rw [← hrelease]
    refine .member ⟨?_, ?_⟩ (.release hrest)
    · rintro _ _ _ ⟨⟩
    · rintro _ _ ⟨⟩
  have hends : Step lockPrefix owner ⟨⟨l, some (.request (.releasing a.entry.name)), r.now⟩, objects⟩
      ⟨⟨l, some (.done .released), r.now⟩, objects \ {a.entry.name}⟩ := by
    exact .member (t := ⟨_, objects⟩) orderly_of_deleted (.answer rfl)
  exact ⟨_, .tail (.single hasks) hends, trivial, rfl⟩

/-- A lock is held by the one entry of its owner in a store with another object, and leaves none there when it is
given back. -/
theorem one_entry_beside_readme : ∃ l objects t n,
    Lock.create "p" ⟨"a"⟩ .recommended .counter = .ok l ∧
      (∀ n ∈ objects, ¬ Entry.IsOwned "p" ⟨"a"⟩ n) ∧
      Relation.ReflTransGen (Step "p" ⟨"a"⟩) ⟨{ lock := l }, objects⟩ t ∧
      t.member.lock.state = .held ∧ n ∈ t.objects ∧ Entry.IsOwned "p" ⟨"a"⟩ n ∧
      "p_readme.txt" ∈ t.objects ∧ t.member.lock.entryName? = some n ∧
      ∃ t', Relation.ReflTransGen (Step "p" ⟨"a"⟩) t t' ∧ t'.member.IsResting ∧
        t'.member.lock.state = .idle ∧ n ∉ t'.objects ∧ "p_readme.txt" ∈ t'.objects := by
  obtain ⟨l, e, hl, ⟨hread, hpre, howner⟩, he, -, h, hafter⟩ :=
    Member.exists_alone none Timings.recommended.settling (Nat.le_refl _)
  have hnone : ∀ n ∈ ({"p_readme.txt"} : Set String), ¬ Entry.IsOwned "p" ⟨"a"⟩ n := by
    rintro n rfl ⟨e', he', -⟩
    have hmalformed : (Entry.read "p_readme.txt").toOption = none := by
      decide +kernel
    rw [he'] at hmalformed
    cases hmalformed
  have run : Relation.ReflTransGen (Step "p" ⟨"a"⟩) _ _ :=
    reaches_of_history (h.restrict orderly_of_poll) {"p_readme.txt"}
  rw [hafter] at run
  have hin : e.name ∈ insert e.name ({"p_readme.txt"} : Set String) := Set.mem_insert _ _
  have hown : Entry.IsOwned "p" ⟨"a"⟩ e.name := ⟨e, hread, hpre, howner⟩
  obtain ⟨-, hheld, -⟩ := at_most_one_entry hl hnone run
  refine ⟨l, _, _, e.name, hl, hnone, run, rfl, hin, hown, .inr rfl, hheld (.inl rfl) _ hin hown, ?_⟩
  obtain ⟨m, hgives, hrest, hidle⟩ := @exists_released "p" ⟨"a"⟩
    ⟨(l.entered [] 0).won [e.name] _, some (.done .acquired), _⟩ ⟨e, 0⟩ rfl trivial (Lock.observe_attempt.trans he)
    (insert e.name {"p_readme.txt"}) (.calm 0)
  obtain ⟨-, -, hgone⟩ := at_most_one_entry hl hnone (run.trans hgives)
  refine ⟨_, hgives, hrest, hidle, fun hmem => hgone hrest hidle _ hmem hown, .inr rfl, ?_⟩
  rintro hname
  exact hnone _ rfl (hname ▸ hown)

end Tenancy

end StoreLock
