import Mathlib
import StoreLock.Text.Split

/-!
# Cutting texts

A text is cut at the last separator, if it holds one, into what stands before and a rest without a
separator. Cutting it at every separator and joining the pieces undo each other.
-/

namespace StoreLock.Text

section

variable {sep : Char} {l before after : List Char}

/-- A text without the separator cannot be cut. -/
lemma splitLast_eq_none (h : sep ∉ l) : splitLast sep l = none := by
  induction l with
  | nil => rfl
  | cons c l ih =>
    rw [List.mem_cons, not_or] at h
    rw [splitLast, ih h.2]
    exact if_neg (Ne.symm h.1)

/-- A text is cut where what follows holds no further separator. -/
lemma splitLast_append (before : List Char) (h : sep ∉ after) :
    splitLast sep (before ++ sep :: after) = some (before, after) := by
  induction before with
  | nil => simp [splitLast, splitLast_eq_none h]
  | cons c before ih => simp [splitLast, ih]

/-- A text that was cut is what stands before the separator, the separator and what stands after. -/
lemma eq_append_of_splitLast (h : splitLast sep l = some (before, after)) :
    l = before ++ sep :: after := by
  induction l generalizing before with
  | nil => cases h
  | cons c l ih =>
    rw [splitLast] at h
    split at h
    case h_1 b a hl =>
      cases h
      rw [ih hl]
      rfl
    case h_2 =>
      split at h
      case isTrue hc =>
        cases h
        rw [hc]
        rfl
      case isFalse => cases h

/-- A text that cannot be cut holds no separator. -/
lemma not_mem_of_splitLast_eq_none (h : splitLast sep l = none) : sep ∉ l := by
  induction l with
  | nil => exact List.not_mem_nil
  | cons c l ih =>
    rw [splitLast] at h
    split at h
    case h_1 => cases h
    case h_2 hl =>
      split at h
      case isTrue => cases h
      case isFalse hc =>
        rw [List.mem_cons, not_or]
        exact ⟨Ne.symm hc, ih hl⟩

/-- What stands after the cut holds no separator. -/
lemma not_mem_of_splitLast (h : splitLast sep l = some (before, after)) : sep ∉ after := by
  induction l generalizing before with
  | nil => cases h
  | cons c l ih =>
    rw [splitLast] at h
    split at h
    case h_1 b a hl =>
      cases h
      exact ih hl
    case h_2 hl =>
      split at h
      case isTrue =>
        cases h
        exact not_mem_of_splitLast_eq_none hl
      case isFalse => cases h

end

section

variable {α : Type} {sep : α} {pieces : List (List α)}

/-- Pieces are joined as two texts with a separator between. -/
lemma intercalate_append {more : List (List α)} (hne : pieces ≠ []) (hm : more ≠ []) :
    [sep].intercalate (pieces ++ more) = [sep].intercalate pieces ++ sep :: [sep].intercalate more := by
  induction pieces with
  | nil => exact absurd rfl hne
  | cons piece pieces ih =>
    by_cases hnil : pieces = []
    · rw [hnil, List.singleton_append, List.intercalate_cons_of_ne_nil hm, List.intercalate_singleton,
        List.append_assoc, List.singleton_append]
    · rw [List.cons_append, List.intercalate_cons_of_ne_nil (by simp [hnil]),
        List.intercalate_cons_of_ne_nil hnil, ih hnil]
      simp only [List.append_assoc]

end

section

variable {α : Type} [DecidableEq α] {sep : α} {l : List α} {pieces : List (List α)}

lemma splitOn_eq (sep : α) (l : List α) : splitOn sep l = l.splitOn sep := by
  induction l with
  | nil => rfl
  | cons c l ih =>
    rw [splitOn, ih, List.splitOn, List.splitOn, List.splitOnP_cons_eq_if_modifyHead]
    by_cases hc : c = sep
    · rw [if_pos hc, if_pos (beq_iff_eq.mpr hc)]
    · rw [if_neg hc, if_neg (by simpa using hc)]
      cases hl : List.splitOnP (· == sep) l with
      | nil => exact absurd hl (List.splitOnP_ne_nil _ _)
      | cons piece pieces => rfl

lemma splitOn_ne_nil : splitOn sep l ≠ [] := by
  rw [splitOn_eq]
  exact List.splitOnP_ne_nil _ _

/-- Joining the pieces of a text gives the text. -/
lemma intercalate_splitOn : [sep].intercalate (splitOn sep l) = l := by
  rw [splitOn_eq, List.intercalate_splitOn]

/-- A text that is joined from pieces has these pieces. -/
lemma splitOn_intercalate (h : ∀ piece ∈ pieces, sep ∉ piece) (hne : pieces ≠ []) :
    splitOn sep ([sep].intercalate pieces) = pieces := by
  rw [splitOn_eq, List.splitOn_intercalate sep h hne]

/-- A text without the separator is one piece. -/
lemma splitOn_of_not_mem (h : sep ∉ l) : splitOn sep l = [l] := by
  have hone : [sep].intercalate [l] = l := List.intercalate_singleton
  rw [← splitOn_intercalate (by simpa using h) (List.cons_ne_nil l []), hone]

/-- The pieces of a text that goes on behind a separator. -/
lemma splitOn_append (l l' : List α) :
    splitOn sep (l ++ sep :: l') = splitOn sep l ++ splitOn sep l' := by
  rw [splitOn_eq, splitOn_eq, splitOn_eq, List.splitOn_append_cons_self]

/-- No piece holds a separator. -/
lemma not_mem_of_mem_splitOn {piece : List α} (h : piece ∈ splitOn sep l) : sep ∉ piece := by
  induction l generalizing piece with
  | nil =>
    cases List.mem_singleton.mp h
    exact List.not_mem_nil
  | cons c l ih =>
    rw [splitOn] at h
    split at h
    case isTrue =>
      rcases List.mem_cons.mp h with rfl | h
      · exact List.not_mem_nil
      · exact ih h
    case isFalse hc =>
      cases hl : splitOn sep l with
      | nil => exact absurd hl splitOn_ne_nil
      | cons first pieces =>
        rw [hl] at h ih
        rcases List.mem_cons.mp h with rfl | h
        · rw [List.mem_cons, not_or]
          exact ⟨Ne.symm hc, ih List.mem_cons_self⟩
        · exact ih (List.mem_cons_of_mem _ h)

/-- What is in a text, but for the separator, is in one of the pieces. -/
lemma exists_mem_splitOn {c : α} (hc : c ≠ sep) : (∃ piece ∈ splitOn sep l, c ∈ piece) ↔ c ∈ l := by
  induction l with
  | nil => simp [splitOn]
  | cons d l ih =>
    rw [splitOn]
    split
    case isTrue hd => simp [hd, hc, ih]
    case isFalse hd =>
      cases hl : splitOn sep l with
      | nil => exact absurd hl splitOn_ne_nil
      | cons first pieces =>
        rw [hl] at ih
        simp [← ih, or_assoc]

end

end StoreLock.Text
