import StoreLock.Proofs.Lock.Watch

/-!
# Calls that go round

A lock whose owner is no id cannot read its own entry. As long as its call has no limit, is not asked to
end and no request of it fails, it goes round (`Lock.Circles`): its entry is never among those that count
(`not_mem_eligible`), so it waits until the entry is so old that it must be gone, creates a new one, and
so on. Each function of the machine stays on that round.
-/

namespace StoreLock

/-- Whether a request has not failed. -/
def Request.IsServed : (request : Request) → request.Answer → Prop
  | .list, .ok _ => True
  | .create _ _, .ok _ => True
  | .delete _, .ok _ => True
  | _, _ => False

namespace Lock

/-- Whether a call without a limit is on its round, with entries of this owner. -/
def Progress.Circles (owner : OwnerId) : Progress → Prop
  | .request (.seeding w) => w.limit = none
  | .request (.creating w entry _) => w.limit = none ∧ entry.owner = owner
  | .request (.ranking w) => w.limit = none
  | .request (.reclaiming w st _ _) => w.limit = none ∧ st ≠ .first
  | .request (.discarding w _) => w.limit = none
  | .pause _ rest => rest.window.limit = none
  | _ => False

/-- Whether a lock and the entry of its attempt are those of this owner. -/
structure Owned (owner : OwnerId) (l : Lock) : Prop where
  lock : l.owner = owner
  attempt : ∀ a, l.attempt = some a → a.entry.owner = owner

/-- Whether a lock of this owner is on its round. -/
structure Circles (owner : OwnerId) (t : Turn) : Prop where
  owned : t.1.Owned owner
  progress : t.2.Circles owner

variable {owner : OwnerId} {l : Lock} {a : Attempt} {listed : List String} {now : Instant} {w : Window}
  {r : Reading} {d : Duration} {st : Standing}

/-- An entry whose owner is no id is not among those that count. -/
lemma not_mem_eligible (ha : a.entry.owner = owner) (ho : ¬ OwnerId.accepts owner.text = true) :
    a.entry ∉ l.eligible a.entry listed now := by
  intro hm
  obtain ⟨n, -, hq, -⟩ := mem_eligible.mp hm
  obtain ⟨-, hproper⟩ := Entry.name_of_read (queued?_eq_some.mp hq).1
  rw [← ha] at ho
  exact ho hproper.owner

lemma standing_ne_first (ha : a.entry.owner = owner) (ho : ¬ OwnerId.accepts owner.text = true) :
    l.standing a listed now ≠ .first := by
  intro hst
  exact not_mem_eligible ha ho (standing_eq_first_iff.mp hst).1

namespace Owned

lemma observe (h : l.Owned owner) : (l.observe listed now).Owned owner where
  lock := by rw [observe_owner, h.lock]
  attempt a ha := by
    rw [observe_attempt] at ha
    exact h.attempt a ha

lemma withoutAttempt (h : l.Owned owner) : l.withoutAttempt.Owned owner := by
  rw [Lock.withoutAttempt]
  cases ha : l.attempt with
  | none => exact h
  | some a => exact ⟨h.lock, by simp⟩

lemma pause (h : l.Owned owner) (hw : w.limit = none) (hr : r.cancelled = false) :
    Circles owner (l.pause w d r) := by
  rw [pause_eq hr]
  exact ⟨h, hw⟩

lemma conclude (h : l.Owned owner) (hw : w.limit = none) (hr : r.cancelled = false)
    (hst : st ≠ .first) : Circles owner (l.conclude w st r) := by
  cases st with
  | first => exact absurd rfl hst
  | waiting =>
    have hover : w.isOver r.now = false := by
      rw [Window.isOver, hw]
      rfl
    rw [Lock.conclude, hover]
    exact h.pause hw hr
  | reclaimed =>
    rw [Lock.conclude]
    cases ha : l.attempt with
    | none => exact ⟨h, hw⟩
    | some a => exact ⟨h.withoutAttempt, hw⟩

lemma reclaim (h : l.Owned owner) (hw : w.limit = none) (hr : r.cancelled = false)
    (hst : st ≠ .first) (names : List String) : Circles owner (l.reclaim w st names r) := by
  cases names with
  | nil => exact h.conclude hw hr hst
  | cons name rest => exact ⟨h, hw, hst⟩

lemma judge (h : l.Owned owner) (hw : w.limit = none) (hr : r.cancelled = false)
    (ho : ¬ OwnerId.accepts owner.text = true) : Circles owner (l.judge w listed r) := by
  cases ha : l.attempt with
  | none =>
    rw [Lock.judge, ha]
    exact h.conclude hw hr (by simp)
  | some a =>
    rw [judge_eq ha]
    exact h.observe.reclaim hw hr (standing_ne_first (h.attempt a ha) ho) _

lemma register (h : l.Owned owner) (hw : w.limit = none) :
    Circles owner (l.register w listed r) := by
  obtain ⟨sequence, sequencer, contents, hreg⟩ := l.register_eq w listed r
  rw [hreg]
  exact ⟨⟨h.observe.lock, h.observe.attempt⟩, hw, h.lock⟩

end Owned

lemma Circles.wake {rest : Rest} (h : Circles owner (l, .pause d rest)) (hr : r.cancelled = false) :
    Circles owner (l.wake rest .elapsed r) := by
  rw [Lock.wake]
  cases ha : l.attempt with
  | none => exact h.owned.conclude h.progress hr (by simp)
  | some a => exact ⟨h.owned, h.progress⟩

lemma Circles.resume {phase : Phase} {answer : phase.request.Answer}
    (h : Circles owner (l, .request phase)) (ho : ¬ OwnerId.accepts owner.text = true)
    (hs : phase.request.IsServed answer) (hr : r.cancelled = false) :
    Circles owner (l.resume phase answer r) := by
  obtain ⟨howned, hprogress⟩ := h
  cases phase with
  | seeding w =>
    cases answer with
    | ok listed => exact howned.register hprogress
    | error e => exact hs.elim
  | creating w entry contents =>
    cases answer with
    | ok u =>
      have hentered : ({ l with attempt := some ⟨entry, r.now⟩ } : Lock).Owned owner := by
        refine ⟨howned.lock, ?_⟩
        intro a ha
        cases ha
        exact hprogress.2
      exact hentered.pause hprogress.1 hr
    | error e => exact hs.elim
  | ranking w =>
    cases answer with
    | ok listed => exact howned.judge hprogress hr ho
    | error e => exact hs.elim
  | reclaiming w st name rest => exact howned.reclaim hprogress.1 hr hprogress.2 rest
  | discarding w name => exact ⟨howned, hprogress⟩
  | clearing limit name => exact hprogress.elim
  | abandoning name o => exact hprogress.elim
  | releasing name => exact hprogress.elim

lemma not_circles_done {o : Outcome} : ¬ Circles owner (l, .done o) :=
  fun h => h.progress

end Lock

end StoreLock
