import Mathlib
import StoreLock.Text.Digit

/-!
# Numbers in digits

A number is written with decimal digits that start with a zero only if it is zero, and they read as that
number (`number_repr`). More digits never make a number smaller (`le_foldl_digits`), so whoever reads digits
one after another meets no number on the way that is larger than the whole.
-/

namespace StoreLock.Text

variable {n : Nat} {c : Char} {cs : List Char}

lemma isDigit_iff : c.isDigit = true ↔ 48 ≤ c.toNat ∧ c.toNat ≤ 57 := by
  simp only [Char.isDigit, ge_iff_le, Bool.and_eq_true, decide_eq_true_eq, UInt32.le_iff_toNat_le]
  exact Iff.rfl

lemma number_eq_ofDigitChars (cs : List Char) : number cs = Nat.ofDigitChars 10 cs 0 :=
  Nat.ofDigitChars_eq_foldl.symm

/-- The digits that a number is written with write that number. -/
theorem number_repr (n : Nat) : number n.repr.toList = n := by
  rw [number_eq_ofDigitChars, Nat.toList_repr, Nat.ofDigitChars_ten_toDigits]

lemma isDigit_of_mem_repr (h : c ∈ n.repr.toList) : c.isDigit = true := by
  rw [Nat.toList_repr] at h
  exact Nat.isDigit_of_mem_toDigits (by decide) (by decide) h

lemma repr_ne_nil (n : Nat) : n.repr.toList ≠ [] := by
  rw [Nat.toList_repr]
  exact Nat.toDigits_ne_nil

/-- Only zero is written with a zero in front. -/
lemma eq_zero_of_head_repr (h : n.repr.toList.head? = some '0') : n = 0 := by
  rw [Nat.toList_repr] at h
  induction n using Nat.strong_induction_on with
  | h n ih =>
    rw [Nat.toDigits_eq_if (by decide)] at h
    split at h
    case isTrue hlt =>
      have hdigit : ∀ n < 10, [n.digitChar].head? = some '0' → n = 0 := by decide
      exact hdigit n hlt h
    case isFalse hge =>
      rw [List.head?_append_of_ne_nil _ Nat.toDigits_ne_nil] at h
      have hzero := ih (n / 10) (by omega) h
      omega

/-- More digits never make a number smaller. -/
lemma le_foldl_digits (cs : List Char) (n : Nat) :
    n ≤ cs.foldl (fun n c => 10 * n + digitValue c) n := by
  induction cs generalizing n with
  | nil => exact Nat.le_refl n
  | cons c cs ih => exact Nat.le_trans (by omega) (ih (10 * n + digitValue c))

end StoreLock.Text
