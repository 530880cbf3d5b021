import StoreLock.Proofs.Lock.Attempt

/-!
# Histories

A history is a run that keeps, with every input, what became of the member by it. It is what a claim
about a whole run is told in: which listings a lock has received and when, when it has let go of its
own entry, and where in all this a call begins and ends. The latest step stands first, as in a run.

A history is made under a condition on its steps, such as that the clock does not go back; whatever
holds at its start and is preserved by every allowed step holds after it (`History.preserves`).
-/

namespace StoreLock

/-- One step of a run: what happened, and what became of the member. -/
structure Taken where
  /-- What happened. -/
  input : Input
  /-- What became of the member. -/
  member : Member

/-- When a step was taken. -/
def Taken.time (t : Taken) : Instant :=
  t.input.reading.now

/-- What an input is the answer to. -/
def Input.request? : Input → Option Request
  | .answer phase _ _ => some phase.request
  | _ => none

/-- Whether an input goes on with a call in progress. -/
def Input.GoesOn : Input → Prop
  | .answer _ _ _ => True
  | .wake _ _ => True
  | _ => False

namespace Member

/-- What has become of a member after some steps, of which the latest stands first. -/
def after (m : Member) : List Taken → Member
  | [] => m
  | t :: _ => t.member

/-- The steps of a run from a member, the latest first, each allowed where it was taken. -/
inductive History (allowed : Member → Input → Prop) (m : Member) : List Taken → Prop where
  | nil : History allowed m []
  | cons {steps t} :
    History allowed m steps →
    allowed (m.after steps) t.input →
    (m.after steps).Step t.input t.member →
    History allowed m (t :: steps)

/-- The steps of a call that takes the lock, from its beginning at `start` on. -/
inductive IsCall (limit : WaitLimit) (start : Instant) : List Taken → Prop where
  | begins {t r} :
    t.input = .acquire limit r →
    r.now = start →
    IsCall limit start [t]
  | goesOn {t call} :
    IsCall limit start call →
    t.input.GoesOn →
    IsCall limit start (t :: call)

/-- The clock does not go back. -/
def Steady (m : Member) (input : Input) : Prop :=
  m.since ≤ input.reading.now

/-- The clock does not go back, and a pause that elapses has lasted as long as it was meant to. -/
structure Punctual (m : Member) (input : Input) : Prop where
  steady : Steady m input
  elapsed : ∀ d rest r, m.progress = some (.pause d rest) → input = .wake .elapsed r →
    m.since + d ≤ r.now

variable {allowed allowed' : Member → Input → Prop} {m m' : Member} {steps newer older : List Taken}
  {t : Taken} {limit : WaitLimit} {start : Instant}

@[simp] lemma after_nil : m.after [] = m :=
  rfl

@[simp] lemma after_cons : m.after (t :: steps) = t.member :=
  rfl

lemma after_append : m.after (newer ++ older) = (m.after older).after newer := by
  cases newer <;> rfl

namespace History

/-- A history that goes on was one before. -/
lemma of_append (h : History allowed m (newer ++ older)) : History allowed m older := by
  induction newer with
  | nil => exact h
  | cons t newer ih =>
    cases h with
    | cons h _ _ => exact ih h

/-- What goes on is a history of what became of the member. -/
lemma from_append (h : History allowed m (newer ++ older)) :
    History allowed (m.after older) newer := by
  induction newer with
  | nil => exact .nil
  | cons t newer ih =>
    rw [List.cons_append] at h
    cases h with
    | cons h ha st =>
      rw [after_append] at ha st
      exact .cons (ih h) ha st

lemma mono (h : History allowed m steps) (hm : ∀ m input, allowed m input → allowed' m input) :
    History allowed' m steps := by
  induction h with
  | nil => exact .nil
  | cons _ ha st ih => exact .cons ih (hm _ _ ha) st

/-- A history is made under every condition that all of its inputs meet. -/
lemma restrict (h : History allowed m steps) (ht : ∀ t ∈ steps, ∀ m, allowed' m t.input) :
    History allowed' m steps := by
  induction h with
  | nil => exact .nil
  | cons _ _ st ih =>
    exact .cons (ih fun t h => ht t (List.mem_cons_of_mem _ h)) (ht _ List.mem_cons_self _) st

/-- The inputs of a history are those of a run. -/
lemma run (h : History allowed m steps) : Run m (steps.map (·.input)) (m.after steps) := by
  induction h with
  | nil => exact .nil
  | cons _ _ st ih => exact .cons ih st

/-- What holds at the start and is preserved by every allowed step holds after a history. -/
theorem preserves {P : List Taken → Member → Prop} (h : History allowed m steps) (start : P [] m)
    (step : ∀ steps m t, P steps m → allowed m t.input → m.Step t.input t.member →
      P (t :: steps) t.member) : P steps (m.after steps) := by
  induction h with
  | nil => exact start
  | cons _ ha st ih => exact step _ _ _ ih ha st

/-- A member that begins coherent stays so. -/
lemma coherent (h : History allowed m steps) (hm : m.Coherent) : (m.after steps).Coherent :=
  h.preserves hm fun _ _ _ ih _ st => st.coherent ih

end History

/-- What follows a step of a call goes on with it, and what comes before it is a call, unless the step
begins one. -/
lemma IsCall.of_append (hc : IsCall limit start (newer ++ t :: older)) :
    (∀ t' ∈ newer, t'.input.GoesOn) ∧
      (IsCall limit start older ∨ ∃ r, t.input = .acquire limit r) := by
  induction newer with
  | nil =>
    cases hc with
    | begins hi => exact ⟨by simp, .inr ⟨_, hi⟩⟩
    | goesOn hc _ => exact ⟨by simp, .inl hc⟩
  | cons t' newer ih =>
    rw [List.cons_append] at hc
    generalize he : newer ++ t :: older = rest at hc
    cases hc with
    | begins => simp at he
    | goesOn hc hon =>
      subst he
      obtain ⟨hnewer, holder⟩ := ih hc
      exact ⟨List.forall_mem_cons.mpr ⟨hon, hnewer⟩, holder⟩

end Member

end StoreLock
