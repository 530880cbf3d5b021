import Mathlib
import StoreLock.Sequencer

/-!
# Drawing sequences

A drawn sequence is compared with what the source knew: it reaches above the sequence drawn last and
above the highest one seen, and strictly so wherever the largest sequence has not been reached.
-/

namespace StoreLock.Sequencer

lemma toNat_max (a b : UInt64) : (max a b).toNat = max a.toNat b.toNat := by
  change (if a ≤ b then b else a).toNat = _
  split
  case isTrue h =>
    rw [UInt64.le_iff_toNat_le] at h
    omega
  case isFalse h =>
    rw [UInt64.le_iff_toNat_le] at h
    omega

/-- The sequence after another as a number: the largest one stays. -/
lemma toNat_after (n : UInt64) : (after n).toNat = min (n.toNat + 1) most.toNat := by
  have hn := n.toNat_lt
  have hmost : most.toNat = 2 ^ 64 - 1 := rfl
  rw [after]
  split
  case isTrue e =>
    subst e
    omega
  case isFalse e =>
    have hne : n.toNat ≠ most.toNat := fun h => e (UInt64.toNat_inj.mp h)
    rw [UInt64.toNat_add, show (1 : UInt64).toNat = 1 from rfl, Nat.mod_eq_of_lt (by omega)]
    omega

lemma toNat_next (s : Sequencer) (unixMillis : UInt64) :
    (s.next unixMillis).1.toNat =
      max (s.base unixMillis).toNat (max (above s.last).toNat (above s.highestSeen).toNat) := by
  rw [next, toNat_max, toNat_max]

/-- A sequence that is not the largest is exceeded by what comes after anything no smaller. -/
lemma toNat_lt_after {q n : UInt64} (hq : q ≤ n) (hm : q ≠ most) : q.toNat < (after n).toNat := by
  have hq' := UInt64.le_iff_toNat_le.mp hq
  have hm' : q.toNat ≠ most.toNat := fun h => hm (UInt64.toNat_inj.mp h)
  have hlt := q.toNat_lt
  have hmost : most.toNat = 2 ^ 64 - 1 := rfl
  rw [toNat_after]
  omega

/-- What is drawn exceeds every sequence up to the one drawn last. -/
lemma lt_next_of_le_last {s : Sequencer} {q n : UInt64} (unixMillis : UInt64)
    (hn : s.last = some n) (hq : q ≤ n) (hm : q ≠ most) : q < (s.next unixMillis).1 := by
  have h := toNat_lt_after hq hm
  rw [UInt64.lt_iff_toNat_lt, toNat_next, hn]
  simp only [above]
  omega

/-- What is drawn exceeds every sequence up to the highest one seen. -/
lemma lt_next_of_le_highestSeen {s : Sequencer} {q n : UInt64} (unixMillis : UInt64)
    (hn : s.highestSeen = some n) (hq : q ≤ n) (hm : q ≠ most) : q < (s.next unixMillis).1 := by
  have h := toNat_lt_after hq hm
  rw [UInt64.lt_iff_toNat_lt, toNat_next, hn]
  simp only [above]
  omega

/-- A sequence that was seen does not exceed the highest one seen. -/
lemma le_observe (s : Sequencer) (n : UInt64) :
    ∃ high, (s.observe n).highestSeen = some high ∧ n ≤ high ∧
      ∀ old, s.highestSeen = some old → old ≤ high := by
  cases hs : s.highestSeen with
  | none => exact ⟨n, by simp [observe, hs], UInt64.le_refl n, nofun⟩
  | some old =>
    refine ⟨max old n, by simp [observe, hs], ?_, ?_⟩
    · rw [UInt64.le_iff_toNat_le, toNat_max]
      omega
    · rintro _ ⟨⟩
      rw [UInt64.le_iff_toNat_le, toNat_max]
      omega

end StoreLock.Sequencer
