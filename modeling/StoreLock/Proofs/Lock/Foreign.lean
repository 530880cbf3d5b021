import StoreLock.Proofs.Lock.Deletion
import StoreLock.Proofs.Lock.Tracking

/-!
# Foreign names

What a lock makes of a listing is what it makes of the queued names in it: all others, be they
malformed or entries of another prefix, are passed over in its record of sightings, in the sequence
that it draws, and in the ranking. So two runs of a lock that are told the same of its queue (`Cue`)
are the same runs.

The record of sightings has to be one that holds queued names only (`Lock.Minds`), or a listing could
drop a foreign name from it; this is so from the first step on.
-/

namespace StoreLock

namespace Entry

instance (lockPrefix : String) : DecidablePred (IsQueued lockPrefix) := fun n =>
  match h : read n with
  | .error _ => .isFalse fun ⟨e, he, _⟩ => by
    rw [h] at he
    cases he
  | .ok e => decidable_of_iff (e.lockPrefix = lockPrefix) <| by
    constructor
    · exact fun hp => ⟨e, h, hp⟩
    · rintro ⟨e', he, hp⟩
      rw [h] at he
      cases he
      exact hp

/-- The names of a listing that are queued under a prefix. -/
def queue (lockPrefix : String) (listed : List String) : List String :=
  listed.filter (IsQueued lockPrefix ·)

variable {lockPrefix n : String} {listed : List String}

lemma mem_queue : n ∈ queue lockPrefix listed ↔ n ∈ listed ∧ IsQueued lockPrefix n := by
  rw [queue, List.mem_filter, decide_eq_true_eq]

lemma queue_cons_of_pos (h : IsQueued lockPrefix n) :
    queue lockPrefix (n :: listed) = n :: queue lockPrefix listed :=
  List.filter_cons_of_pos (decide_eq_true h)

lemma queue_cons_of_neg (h : ¬ IsQueued lockPrefix n) :
    queue lockPrefix (n :: listed) = queue lockPrefix listed :=
  List.filter_cons_of_neg (by simpa using h)

end Entry

namespace Lock

/-- A lock for a prefix that has only queued names on record. -/
structure Minds (lockPrefix : String) (l : Lock) : Prop where
  prefix_eq : l.lockPrefix = lockPrefix
  queued : ∀ p ∈ l.sightings.firstSeen, Entry.IsQueued lockPrefix p.1

variable {l : Lock} {lockPrefix n : String} {listed : List String} {now : Instant} {own : Entry}
  {a : Attempt} {w : Window} {r : Reading}

lemma queued?_eq_none (hp : l.lockPrefix = lockPrefix) (h : ¬ Entry.IsQueued lockPrefix n) :
    l.queued? n = none := by
  rw [← hp, ← exists_queued?_iff] at h
  rw [Option.eq_none_iff_forall_not_mem]
  exact fun e he => h ⟨e, he⟩

lemma note_of_not_isQueued (hp : l.lockPrefix = lockPrefix) (h : ¬ Entry.IsQueued lockPrefix n) :
    l.note now n = l := by
  rw [note, queued?_eq_none hp h]

lemma note_lockPrefix (name : String) : (l.note now name).lockPrefix = l.lockPrefix := by
  rw [note_frame]

lemma foldl_note_queue (names : List String) (hp : l.lockPrefix = lockPrefix) :
    (Entry.queue lockPrefix names).foldl (note · now) l = names.foldl (note · now) l := by
  induction names generalizing l with
  | nil => rfl
  | cons n names ih =>
    by_cases h : Entry.IsQueued lockPrefix n
    · rw [Entry.queue_cons_of_pos h, List.foldl_cons, List.foldl_cons,
        ih ((note_lockPrefix n).trans hp)]
    · rw [Entry.queue_cons_of_neg h, List.foldl_cons, note_of_not_isQueued hp h, ih hp]

namespace Minds

lemma observe (h : l.Minds lockPrefix) : (l.observe listed now).Minds lockPrefix where
  prefix_eq := observe_lockPrefix.trans h.prefix_eq
  queued := by
    rw [Lock.observe]
    refine (List.foldlRecOn listed (note · now) (motive := Minds lockPrefix) ?_ ?_).queued
    · exact ⟨h.prefix_eq, fun p hp => h.queued p (Sightings.mem_retain.mp hp).1⟩
    · intro l h n _
      refine ⟨(note_lockPrefix n).trans h.prefix_eq, ?_⟩
      rintro ⟨n', f⟩ hp
      rw [note] at hp
      cases hq : l.queued? n with
      | none =>
        rw [hq] at hp
        exact h.queued _ hp
      | some e =>
        rw [hq] at hp
        rcases Sightings.mem_observe hp with hp | ⟨rfl, -⟩
        · exact h.queued _ hp
        · rw [← h.prefix_eq]
          exact exists_queued?_iff.mp ⟨e, hq⟩

/-- Only the queued names of a listing are taken note of. -/
lemma observe_queue (h : l.Minds lockPrefix) :
    l.observe (Entry.queue lockPrefix listed) now = l.observe listed now := by
  have hr : l.sightings.retain (Entry.queue lockPrefix listed) = l.sightings.retain listed := by
    rw [Sightings.retain, Sightings.retain]
    congr 1
    refine List.filter_congr fun p hp => ?_
    rw [Bool.eq_iff_iff, List.contains_iff_mem, List.contains_iff_mem, Entry.mem_queue,
      and_iff_left (h.queued p hp)]
  rw [Lock.observe, Lock.observe, hr]
  exact foldl_note_queue listed h.prefix_eq

lemma stale_queue (h : l.Minds lockPrefix) :
    l.stale own (Entry.queue lockPrefix listed) now = l.stale own listed now := by
  rw [stale, stale, Entry.queue, List.filter_filter]
  refine List.filter_congr fun n _ => ?_
  by_cases hn : Entry.IsQueued lockPrefix n
  · simp [hn]
  · simp [hn, isReclaimable, queued?_eq_none h.prefix_eq hn]

lemma eligible_queue (h : l.Minds lockPrefix) :
    l.eligible own (Entry.queue lockPrefix listed) now = l.eligible own listed now := by
  rw [eligible, eligible, Entry.queue, List.filter_filter, List.filterMap_filter,
    List.filterMap_filter]
  refine List.filterMap_congr fun n _ => ?_
  by_cases hn : Entry.IsQueued lockPrefix n
  · simp [hn]
  · simp [hn, queued?_eq_none h.prefix_eq hn]

lemma standing_queue (h : l.Minds lockPrefix) :
    l.standing a (Entry.queue lockPrefix listed) now = l.standing a listed now := by
  rw [standing, standing, h.eligible_queue]

lemma judge_queue (h : l.Minds lockPrefix) :
    l.judge w (Entry.queue lockPrefix listed) r = l.judge w listed r := by
  rw [judge, judge]
  simp only [h.observe_queue, h.observe.standing_queue, h.observe.stale_queue]

lemma register_queue (h : l.Minds lockPrefix) :
    l.register w (Entry.queue lockPrefix listed) r = l.register w listed r := by
  rw [register, register, h.observe_queue]

end Minds

end Lock

/-- An answer of a store, whatever it is the answer to. -/
inductive Reply
  /-- To a request for a listing. -/
  | listing (answer : Except StoreError (List String))
  /-- To a request for a change. -/
  | done (answer : Except StoreError Unit)

/-- The answer to a request. -/
def Request.reply : (request : Request) → request.Answer → Reply
  | .list, answer => .listing answer
  | .create _ _, answer => .done answer
  | .delete _, answer => .done answer

/-- What a store tells of the queue of a prefix. -/
def Reply.queue (lockPrefix : String) : Reply → Reply
  | .listing (.ok listed) => .listing (.ok (Entry.queue lockPrefix listed))
  | .listing (.error e) => .listing (.error e)
  | .done answer => .done answer

/-- What a lock is told by an input of the queue of its prefix. -/
inductive Cue
  | acquire (limit : WaitLimit) (r : Reading)
  | release (r : Reading)
  | reply (reply : Reply) (r : Reading)
  | wake (ended : PauseEnd) (r : Reading)
  | drop (r : Reading)

/-- What a lock is told by an input if it hears this of each answer. -/
def Input.heard (hears : (request : Request) → request.Answer → Reply) : Input → Cue
  | .acquire limit r => .acquire limit r
  | .release r => .release r
  | .answer phase a r => .reply (hears phase.request a) r
  | .wake ended r => .wake ended r
  | .drop r => .drop r

/-- What an input tells of the queue of a prefix. -/
def Input.cue (lockPrefix : String) : Input → Cue
  | .acquire limit r => .acquire limit r
  | .release r => .release r
  | .answer phase a r => .reply ((phase.request.reply a).queue lockPrefix) r
  | .wake ended r => .wake ended r
  | .drop r => .drop r

/-- Listings tell the same if both fail alike, or show the same queue. -/
lemma Reply.cases_of_queue_eq {lockPrefix : String} {a a' : Except StoreError (List String)}
    (h : (listing a).queue lockPrefix = (listing a').queue lockPrefix) :
    (∃ e, a = .error e ∧ a' = .error e) ∨
      ∃ listed listed', a = .ok listed ∧ a' = .ok listed' ∧
        Entry.queue lockPrefix listed = Entry.queue lockPrefix listed' := by
  rcases a with e | listed <;> rcases a' with e' | listed'
  · cases h
    exact .inl ⟨e, rfl, rfl⟩
  · cases h
  · cases h
  · injection h with h
    injection h with h
    exact .inr ⟨listed, listed', rfl, rfl, h⟩

/-- A lock goes on in the same way if it is told the same of its queue. -/
lemma Lock.Minds.resume_eq {l : Lock} {lockPrefix : String} {phase : Lock.Phase}
    {a a' : phase.request.Answer} {r : Reading} (h : l.Minds lockPrefix)
    (he : (phase.request.reply a).queue lockPrefix = (phase.request.reply a').queue lockPrefix) :
    l.resume phase a r = l.resume phase a' r := by
  cases phase with
  | seeding w =>
    rcases Reply.cases_of_queue_eq he with ⟨e, rfl, rfl⟩ | ⟨listed, listed', rfl, rfl, hq⟩
    · rfl
    · change l.register w listed r = l.register w listed' r
      rw [← h.register_queue, hq, h.register_queue]
  | ranking w =>
    rcases Reply.cases_of_queue_eq he with ⟨e, rfl, rfl⟩ | ⟨listed, listed', rfl, rfl, hq⟩
    · rfl
    · change l.judge w listed r = l.judge w listed' r
      rw [← h.judge_queue, hq, h.judge_queue]
  | creating w entry contents =>
    cases he
    rfl
  | releasing name =>
    cases he
    rfl
  -- Whatever the store answers to these, it makes no difference.
  | clearing limit name => rfl
  | reclaiming w st name rest => rfl
  | discarding w name => rfl
  | abandoning name o => rfl

namespace Member

variable {m m' m₁ m₂ : Member} {input i₁ i₂ : Input} {lockPrefix : String}

lemma Step.minds (st : Step m input m') (hm : m.Coherent) (h : m.lock.Minds lockPrefix) :
    m'.lock.Minds lockPrefix := by
  have told : ∀ p ∈ (m.lock.told input).sightings.firstSeen, Entry.IsQueued lockPrefix p.1 := by
    rcases m.lock.told_cases input with ⟨listed, -, ht⟩ | ⟨-, ht⟩
    · rw [ht]
      exact h.observe.queued
    · rw [ht]
      exact h.queued
  refine ⟨(st.advance hm).lockPrefix.trans h.prefix_eq, ?_⟩
  cases st.hands hm with
  | keeps _ hs _ =>
    rw [hs]
    exact told
  | leaves _ _ hs _ =>
    rw [hs]
    exact fun p hp => told p (Sightings.mem_forget.mp hp).1

/-- Steps that are told the same do the same, if the lock heeds only what it hears of an answer. -/
lemma Step.eq_of_heard {hears : (request : Request) → request.Answer → Reply} (st₁ : Step m i₁ m₁)
    (st₂ : Step m i₂ m₂) (hc : i₁.heard hears = i₂.heard hears)
    (hheeds : ∀ phase a a' r, m.progress = some (.request phase) →
      hears phase.request a = hears phase.request a' → m.lock.resume phase a r = m.lock.resume phase a' r) :
    m₁ = m₂ ∧ i₁.request? = i₂.request? := by
  cases st₁ with
  | acquire =>
    cases st₂ <;> cases hc
    exact ⟨rfl, rfl⟩
  | release =>
    cases st₂ <;> cases hc
    exact ⟨rfl, rfl⟩
  | drop =>
    cases st₂ <;> cases hc
    exact ⟨rfl, rfl⟩
  | wake hp₁ =>
    cases st₂ with
    | wake hp₂ =>
      rw [hp₁] at hp₂
      cases hp₂
      cases hc
      exact ⟨rfl, rfl⟩
    | _ => cases hc
  | answer hp₁ =>
    cases st₂ with
    | answer hp₂ =>
      rw [hp₁] at hp₂
      cases hp₂
      injection hc with hreply hr
      subst hr
      rw [hheeds _ _ _ _ hp₁ hreply]
      exact ⟨rfl, rfl⟩
    | _ => cases hc

/-- Histories that are told the same are the same, but for the answers in them, if the lock heeds only what it
hears of an answer wherever it waits for one. -/
theorem History.eq_of_heard {hears : (request : Request) → request.Answer → Reply}
    {allowed allowed' : Member → Input → Prop} {steps steps' : List Taken} (h : History allowed m steps)
    (h' : History allowed' m steps') (hc : steps.map (·.input.heard hears) = steps'.map (·.input.heard hears))
    (hheeds : ∀ newer older, steps = newer ++ older → ∀ phase a a' r,
      (m.after older).progress = some (.request phase) → hears phase.request a = hears phase.request a' →
        (m.after older).lock.resume phase a r = (m.after older).lock.resume phase a' r) :
    steps.map (·.member) = steps'.map (·.member) ∧
      steps.map (·.input.request?) = steps'.map (·.input.request?) ∧ m.after steps = m.after steps' := by
  -- Both histories have led to the same member before their latest steps, so these are alike too.
  induction h generalizing steps' with
  | nil =>
    cases h' with
    | nil => exact ⟨rfl, rfl, rfl⟩
    | cons => cases hc
  | @cons steps t h _ st ih =>
    cases h' with
    | nil => cases hc
    | @cons steps' t' h' _ st' =>
      rw [List.map_cons, List.map_cons, List.cons.injEq] at hc
      obtain ⟨hmem, hreq, hafter⟩ := ih h' hc.2 fun newer older he =>
        hheeds (t :: newer) older (congrArg (t :: ·) he)
      rw [← hafter] at st'
      obtain ⟨hm', hr⟩ := st.eq_of_heard st' hc.1 (hheeds [t] steps rfl)
      refine ⟨?_, ?_, hm'⟩
      · rw [List.map_cons, List.map_cons, hmem, hm']
      · rw [List.map_cons, List.map_cons, hreq, hr]

lemma Run.minds {l : Lock} {owner : OwnerId} {timings : Timings} {strategy : Strategy}
    {inputs : List Input} (hl : Lock.create lockPrefix owner timings strategy = .ok l)
    (run : Run { lock := l } inputs m) : m.lock.Minds lockPrefix := by
  induction run with
  | nil =>
    obtain ⟨rfl, -, -⟩ := Lock.eq_of_create hl
    exact ⟨rfl, nofun⟩
  | cons run st ih => exact st.minds (run.recorded hl).coherent ih

lemma History.minds {allowed : Member → Input → Prop} {steps : List Taken} (h : History allowed m steps)
    (hm : m.Coherent) (hl : m.lock.Minds lockPrefix) : (m.after steps).lock.Minds lockPrefix := by
  induction h with
  | nil => exact hl
  | cons h _ st ih => exact st.minds (h.coherent hm) ih

/-- Histories that are told the same of the queue are the same, but for the listings in them. -/
theorem History.eq_of_cues {allowed allowed' : Member → Input → Prop} {steps steps' : List Taken}
    (h : History allowed m steps) (h' : History allowed' m steps') (hm : m.Coherent)
    (hl : m.lock.Minds lockPrefix)
    (hc : steps.map (·.input.cue lockPrefix) = steps'.map (·.input.cue lockPrefix)) :
    steps.map (·.member) = steps'.map (·.member) ∧
      steps.map (·.input.request?) = steps'.map (·.input.request?) ∧
      m.after steps = m.after steps' ∧ (m.after steps).lock.Minds lockPrefix := by
  have hcue (input : Input) :
      input.cue lockPrefix = input.heard fun request a => (request.reply a).queue lockPrefix := by
    cases input <;> rfl
  simp only [hcue] at hc
  obtain ⟨hmember, hrequest, hafter⟩ := h.eq_of_heard h' hc <| by
    rintro newer older rfl phase a a' r -
    exact (h.of_append.minds hm hl).resume_eq
  exact ⟨hmember, hrequest, hafter, h.minds hm hl⟩

end Member

end StoreLock
