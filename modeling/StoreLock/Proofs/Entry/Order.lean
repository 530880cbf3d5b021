import StoreLock.Proofs.Entry.Name

/-!
# The order of entries

Entries of one lock stand in the order of their sequences and then of their owners. What the ranking
of a listing needs of this order is that two entries which come no later than each other are one
(`le_antisymm`), and that the sequence decides wherever it differs (`not_le_of_sequence_lt`).
-/

namespace StoreLock.Entry

lemma compare_def (a b : Entry) :
    compare a b = (compare a.lockPrefix b.lockPrefix).then
      ((compare a.sequence b.sequence).then (compare a.owner.text b.owner.text)) :=
  rfl

/-- Comparing the other way round gives the opposite answer. -/
instance : Std.OrientedOrd Entry where
  eq_swap {a b} := by
    rw [compare_def a b, compare_def b a, Ordering.swap_then, Ordering.swap_then,
      ← Std.OrientedCmp.eq_swap, ← Std.OrientedCmp.eq_swap, ← Std.OrientedCmp.eq_swap]

/-- Entries that compare equal are one. -/
instance : Std.LawfulEqOrd Entry where
  eq_of_compare {a b} h := by
    rw [compare_def, Ordering.then_eq_eq, Ordering.then_eq_eq] at h
    obtain ⟨hp, hs, ho⟩ := h
    obtain ⟨p, s, ⟨o⟩⟩ := a
    obtain ⟨p', s', ⟨o'⟩⟩ := b
    cases Std.LawfulEqCmp.eq_of_compare hp
    cases Std.LawfulEqCmp.eq_of_compare hs
    cases Std.LawfulEqCmp.eq_of_compare ho
    rfl

@[simp] lemma le_refl (a : Entry) : a.le a = true := by
  have h : compare a a = .eq := Std.ReflCmp.compare_self
  rw [le, h]
  rfl

/-- Two entries that come no later than each other are one. -/
theorem le_antisymm {a b : Entry} (hab : a.le b = true) (hba : b.le a = true) : a = b :=
  Std.LawfulEqCmp.eq_of_compare (Std.OrientedCmp.isLE_antisymm hab hba)

/-- Of two entries of one lock the one with the smaller sequence comes first. -/
lemma compare_eq_lt {a b : Entry} (h : a.lockPrefix = b.lockPrefix) (hs : a.sequence < b.sequence) :
    compare a b = .lt := by
  have hp : compare a.lockPrefix b.lockPrefix = .eq := by
    rw [h]
    exact Std.ReflCmp.compare_self
  have hc : compare a.sequence b.sequence = .lt := Std.compare_eq_lt.mpr hs
  rw [compare_def, hp, hc]
  rfl

lemma le_of_sequence_lt {a b : Entry} (h : a.lockPrefix = b.lockPrefix)
    (hs : a.sequence < b.sequence) : a.le b = true := by
  rw [le, compare_eq_lt h hs]
  rfl

/-- The entry with the larger sequence does not come first. -/
theorem not_le_of_sequence_lt {a b : Entry} (h : a.lockPrefix = b.lockPrefix)
    (hs : a.sequence < b.sequence) : ¬ b.le a = true := by
  rw [le, Std.OrientedOrd.eq_swap (a := b), compare_eq_lt h hs]
  decide

end StoreLock.Entry
