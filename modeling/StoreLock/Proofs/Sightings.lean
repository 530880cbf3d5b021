import Mathlib
import StoreLock.Sightings

/-!
# What is on record

Sightings are told by the time since which each name is on record (`Sightings.since?`), and every use of
them changes this time name by name. So what is on record of a name is told by the uses that have been made
of the sightings: since the first of the observations of this name behind which nothing has dropped it
(`since?_ofUses`). How long it has been seen for and whether it is stale count from that observation
(`isStale_iff_firstSeen`), and uses that concern other names only make no difference (`since?_filter`).

The latest use stands first.
-/

namespace StoreLock

namespace Sightings

/-- When a name was first seen, if it is on record. -/
def since? (s : Sightings) (n : String) : Option Instant :=
  s.firstSeen.lookup n

variable {s : Sightings} {n name : String} {now : Instant}

lemma lookup_filter (q : String → Bool) (l : List (String × Instant)) :
    (l.filter fun p => q p.1).lookup n = if q n then l.lookup n else none := by
  induction l with
  | nil => simp
  | cons p l ih =>
    obtain ⟨m, f⟩ := p
    by_cases hm : n = m
    · subst hm
      cases hq : q n <;> simp [hq, ih]
    · have hb : (n == m) = false := by simpa using hm
      cases hq : q m <;> simp [List.lookup_cons, hq, hb, ih]

lemma since?_retain (listed : List String) :
    (s.retain listed).since? n = if n ∈ listed then s.since? n else none := by
  rw [since?, retain, lookup_filter]
  simp [since?]

lemma since?_forget : (s.forget name).since? n = if n = name then none else s.since? n := by
  rw [since?, forget, lookup_filter (· != name)]
  by_cases h : n = name <;> simp [since?, h]

lemma since?_observe : (s.observe name now).2.since? n =
    if n = name then some ((s.since? n).getD now) else s.since? n := by
  rw [observe]
  by_cases h : n = name
  · subst h
    cases hs : s.firstSeen.lookup n <;> simp [since?, hs]
  · have hb : (n == name) = false := by simpa using h
    cases hs : s.firstSeen.lookup name <;> simp [since?, List.lookup_cons, h, hb]

/-- A name is stale if it is on record since more than the timeout ago. -/
lemma isStale_iff {timeout : Duration} :
    s.isStale n now timeout = true ↔ ∃ f, s.since? n = some f ∧ f + timeout < now := by
  rw [isStale, age?, ← since?]
  cases hs : s.since? n with
  | none => simp
  | some f =>
    simp only [Option.map_some, decide_eq_true_eq, Option.some.injEq, exists_eq_left']
    lia

/-- A use of sightings. -/
inductive Use
  /-- A name is listed at this time. -/
  | observe (name : String) (now : Instant)
  /-- Only these names are listed. -/
  | retain (listed : List String)
  /-- A name is dropped. -/
  | forget (name : String)

namespace Use

/-- Whether a use takes a name off the record. -/
def Drops (n : String) : Use → Prop
  | .observe _ _ => False
  | .retain listed => n ∉ listed
  | .forget name => name = n

/-- Whether a use observes a name or takes it off the record. -/
def concerns (n : String) : Use → Bool
  | .observe name _ => name == n
  | .retain listed => !listed.contains n
  | .forget name => name == n

end Use

/-- What these uses make of no sightings at all. -/
def ofUses : List Use → Sightings
  | [] => {}
  | .observe name now :: uses => ((ofUses uses).observe name now).2
  | .retain listed :: uses => (ofUses uses).retain listed
  | .forget name :: uses => (ofUses uses).forget name

/-- Whether every observation of a name is followed by a use that drops it. -/
def Unseen (n : String) (uses : List Use) : Prop :=
  ∀ later now earlier, uses = later ++ .observe n now :: earlier → ∃ use ∈ later, use.Drops n

/-- Whether a name was observed then, has not been dropped since, and was not on record before. -/
def FirstSeen (n : String) (first : Instant) (uses : List Use) : Prop :=
  ∃ later earlier, uses = later ++ .observe n first :: earlier ∧ (∀ use ∈ later, ¬ use.Drops n) ∧
    Unseen n earlier

variable {u : Use} {uses : List Use} {first : Instant}

lemma not_firstSeen_nil : ¬ FirstSeen n first [] := by
  rintro ⟨later, earlier, he, -⟩
  simp at he

lemma unseen_nil : Unseen n [] := by
  intro later now earlier he
  simp at he

/-- A name is unseen if the latest use has not observed it and has dropped it, unless it was unseen
before. -/
lemma unseen_cons : Unseen n (u :: uses) ↔
    (∀ now, u ≠ .observe n now) ∧ (u.Drops n ∨ Unseen n uses) := by
  constructor
  · intro h
    refine ⟨?_, ?_⟩
    · rintro now rfl
      obtain ⟨use, hmem, -⟩ := h [] now uses rfl
      cases hmem
    · refine or_iff_not_imp_left.mpr ?_
      rintro hu later now earlier rfl
      obtain ⟨use, hmem, hdrops⟩ := h (u :: later) now earlier rfl
      rcases List.mem_cons.mp hmem with rfl | hmem
      · exact absurd hdrops hu
      · exact ⟨use, hmem, hdrops⟩
  · rintro ⟨hne, hu⟩ later now earlier he
    cases later with
    | nil =>
      cases he
      exact absurd rfl (hne now)
    | cons use later =>
      cases he
      rcases hu with hdrops | hunseen
      · exact ⟨u, List.mem_cons_self, hdrops⟩
      · obtain ⟨use, hmem, hdrops⟩ := hunseen later now earlier rfl
        exact ⟨use, List.mem_cons_of_mem u hmem, hdrops⟩

lemma firstSeen_cons : FirstSeen n first (u :: uses) ↔
    (u = .observe n first ∧ Unseen n uses) ∨ (¬ u.Drops n ∧ FirstSeen n first uses) := by
  constructor
  · rintro ⟨later, earlier, he, hkept, hunseen⟩
    cases later with
    | nil =>
      cases he
      exact .inl ⟨rfl, hunseen⟩
    | cons use later =>
      cases he
      obtain ⟨hu, hkept⟩ := List.forall_mem_cons.mp hkept
      exact .inr ⟨hu, later, earlier, rfl, hkept, hunseen⟩
  · rintro (⟨rfl, hunseen⟩ | ⟨hu, later, earlier, rfl, hkept, hunseen⟩)
    · exact ⟨[], uses, rfl, nofun, hunseen⟩
    · exact ⟨u :: later, earlier, rfl, List.forall_mem_cons.mpr ⟨hu, hkept⟩, hunseen⟩

/-- A name is on record since it was first seen, and it is off the record if it is unseen. -/
theorem since?_ofUses (uses : List Use) (n : String) :
    (∀ first, (ofUses uses).since? n = some first ↔ FirstSeen n first uses) ∧
    ((ofUses uses).since? n = none ↔ Unseen n uses) := by
  induction uses with
  | nil => exact ⟨fun _ => iff_of_false nofun not_firstSeen_nil, iff_of_true rfl unseen_nil⟩
  | cons u uses ih =>
    obtain ⟨hfirst, hunseen⟩ := ih
    simp only [firstSeen_cons, unseen_cons, ← hfirst, ← hunseen]
    cases u with
    | observe name now =>
      rw [ofUses, since?_observe]
      by_cases hn : n = name
      · subst hn
        cases (ofUses uses).since? n <;> simp [Use.Drops]
      · simp [Use.Drops, hn, Ne.symm hn]
    | retain listed =>
      rw [ofUses, since?_retain]
      by_cases hn : n ∈ listed <;> simp [Use.Drops, hn]
    | forget name =>
      rw [ofUses, since?_forget]
      by_cases hn : n = name
      · simp [Use.Drops, hn]
      · simp [Use.Drops, hn, Ne.symm hn]

/-- What is on record of a name is told by the uses that concern it. -/
lemma since?_filter (uses : List Use) (n : String) :
    (ofUses (uses.filter (Use.concerns n))).since? n = (ofUses uses).since? n := by
  induction uses with
  | nil => rfl
  | cons u uses ih =>
    cases u with
    | observe name now =>
      by_cases hn : n = name
      · subst hn
        simp [Use.concerns, ofUses, since?_observe, ih]
      · simp [Use.concerns, ofUses, since?_observe, hn, Ne.symm hn, ih]
    | retain listed =>
      by_cases hn : n ∈ listed
      · simp [Use.concerns, ofUses, since?_retain, hn, ih]
      · simp [Use.concerns, ofUses, since?_retain, hn]
    | forget name =>
      by_cases hn : n = name
      · simp [Use.concerns, ofUses, since?_forget, hn]
      · simp [Use.concerns, ofUses, since?_forget, hn, Ne.symm hn, ih]

/-- An observed name has been seen for as long as it is on record, or not for any time yet. -/
lemma observe_fst : (s.observe n now).1 = now - (s.since? n).getD now := by
  rw [observe, since?]
  cases s.firstSeen.lookup n with
  | none => simp
  | some first => rfl

/-- Sightings are the same to a name if it is on record since the same time. -/
lemma isStale_congr {s' : Sightings} (h : s.since? n = s'.since? n) (timeout : Duration) :
    s.isStale n now timeout = s'.isStale n now timeout := by
  rw [isStale, isStale, age?, age?, ← since?, ← since?, h]

/-- However names have been observed, retained and forgotten, a name is stale if and only if it has been
observed since it was dropped last, and more than the timeout has passed since the first such observation.
To observe it tells the same age. What was done with other names only makes no difference to either. -/
theorem isStale_iff_firstSeen (uses : List Use) (n : String) (now : Instant) (timeout : Duration) :
    ((ofUses uses).isStale n now timeout = true ↔
      ∃ first, FirstSeen n first uses ∧ timeout < now - first) ∧
    (∃ first, (∀ f, FirstSeen n f (.observe n now :: uses) ↔ f = first) ∧
      ((ofUses uses).observe n now).1 = now - first) ∧
    (ofUses (uses.filter (Use.concerns n))).isStale n now timeout = (ofUses uses).isStale n now timeout ∧
    ((ofUses (uses.filter (Use.concerns n))).observe n now).1 = ((ofUses uses).observe n now).1 := by
  refine ⟨?_, ?_, isStale_congr (since?_filter uses n) timeout, ?_⟩
  · simp only [isStale_iff, (since?_ofUses uses n).1, Nat.lt_sub_iff_add_lt, Nat.add_comm]
  · refine ⟨((ofUses uses).since? n).getD now, ?_, observe_fst⟩
    intro f
    rw [← (since?_ofUses (.observe n now :: uses) n).1, ofUses, since?_observe, if_pos rfl,
      Option.some.injEq, eq_comm]
  · rw [observe_fst, observe_fst, since?_filter]

/-- A name that drops out of a listing starts anew, and another is not touched by that. -/
example :
    let uses : List Use := [.observe "a" 12, .retain ["b"], .observe "b" 3, .observe "a" 0]
    ((ofUses uses).observe "a" 15).1 = 3 ∧ ((ofUses uses).observe "b" 15).1 = 12 := by
  decide

end Sightings

end StoreLock
