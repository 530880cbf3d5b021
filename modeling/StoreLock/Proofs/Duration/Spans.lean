import StoreLock.Duration.Human
import StoreLock.Proofs.Text.Number

/-!
# Spans of a length

A length is written as spans, that is numbers with units. Nothing of the length is lost when it is split
over units (`sum_split_add_left`), and the units that are written leave nothing over, so the spans make that
very length (`sum_spans`). Those of units below a second make less than a second (`lt_of_mem_spans`). A
span is spelled as its number with the name of its unit behind, of which there is one for one and one for
more; every such name tells its unit (`ofName?_nameFor`).
-/

namespace StoreLock.Duration

/-- A number with its unit. -/
abbrev Span := Nat × TimeUnit

variable {us : List TimeUnit} {d : Duration} {c : Char} {p : Span} {ps : List Span}

/-! ## What lengths are split into -/

/-- The length that spans make together. -/
def sum (ps : List Span) : Duration :=
  (ps.map fun p => p.1 * p.2.length).sum

lemma sum_cons (p : Span) (ps : List Span) : sum (p :: ps) = p.1 * p.2.length + sum ps :=
  List.sum_cons

/-- What is left of a length that has been split over units. -/
def left (us : List TimeUnit) (d : Duration) : Duration :=
  us.foldl (fun d u => d % u.length) d

lemma split_cons (u : TimeUnit) (us : List TimeUnit) (d : Duration) : split (u :: us) d =
    (if d / u.length = 0 then [] else [(d / u.length, u)]) ++ split us (d % u.length) := by
  rw [split]
  split <;> rfl

lemma split_append (us vs : List TimeUnit) (d : Duration) :
    split (us ++ vs) d = split us d ++ split vs (left us d) := by
  induction us generalizing d with
  | nil => rfl
  | cons u us ih =>
    rw [List.cons_append, split_cons, split_cons, ih, List.append_assoc]
    rfl

lemma mem_of_mem_split (h : p ∈ split us d) : p.2 ∈ us := by
  induction us generalizing d with
  | nil => cases h
  | cons u us ih =>
    rw [split_cons, List.mem_append] at h
    rcases h with h | h
    · split at h
      · cases h
      · rw [List.mem_singleton.mp h]
        exact List.mem_cons_self
    · exact List.mem_cons_of_mem u (ih h)

/-- No part of a length is lost. -/
lemma sum_split_add_left (us : List TimeUnit) (d : Duration) : sum (split us d) + left us d = d := by
  induction us generalizing d with
  | nil => exact Nat.zero_add d
  | cons u us ih =>
    have hrest := ih (d % u.length)
    have hdiv := Nat.div_add_mod' d u.length
    rw [split]
    split
    case isTrue hzero =>
      rw [hzero, Nat.zero_mul, Nat.zero_add] at hdiv
      exact hrest.trans hdiv
    case isFalse =>
      rw [sum_cons, Nat.add_assoc]
      exact (congrArg _ hrest).trans hdiv

lemma le_sum_of_mem (h : p ∈ ps) : p.1 * p.2.length ≤ sum ps :=
  List.le_sum_of_mem (List.mem_map_of_mem h)

lemma TimeUnit.length_pos (u : TimeUnit) : 0 < u.length := by
  cases u <;> decide

lemma left_lt (us : List TimeUnit) (u : TimeUnit) (d : Duration) : left (us ++ [u]) d < u.length := by
  rw [left, List.foldl_append]
  exact Nat.mod_lt _ u.length_pos

/-- The units that are written and no shorter than a second. -/
def TimeUnit.whole : List TimeUnit :=
  [.year, .month, .day, .hour, .minute, .second]

/-- The units that are written and shorter than a second. -/
def TimeUnit.fractional : List TimeUnit :=
  [.millisecond, .microsecond, .nanosecond]

/-- What a length is split into makes that length. -/
lemma sum_split (d : Duration) : sum (split TimeUnit.written d) = d := by
  have hleft : left TimeUnit.written d < 1 :=
    left_lt (TimeUnit.whole ++ [TimeUnit.millisecond, TimeUnit.microsecond]) .nanosecond d
  have h := sum_split_add_left TimeUnit.written d
  rw [Nat.lt_one_iff.mp hleft] at h
  exact h

/-- Numbers of units below a second make less than a second. -/
lemma lt_of_mem_split (h : p ∈ split TimeUnit.written d) (hp : p.2.wholeGrain = 1) :
    p.1 * p.2.length < ofParts 1 0 := by
  have hwhole : ∀ u ∈ TimeUnit.whole, u.wholeGrain ≠ 1 := by
    decide
  rw [show TimeUnit.written = TimeUnit.whole ++ TimeUnit.fractional from rfl, split_append,
    List.mem_append] at h
  rcases h with h | h
  · exact absurd hp (hwhole p.2 (mem_of_mem_split h))
  · have hle := Nat.le.intro (sum_split_add_left TimeUnit.fractional (left TimeUnit.whole d))
    have hlt := left_lt [.year, .month, .day, .hour, .minute] .second d
    exact Nat.lt_of_le_of_lt (Nat.le_trans (le_sum_of_mem h) hle) hlt

/-- The spans that a length is written as. -/
def spans (d : Duration) : List Span :=
  if d = 0 then [(0, .second)] else split TimeUnit.written d

lemma sum_spans (d : Duration) : sum d.spans = d := by
  rw [spans]
  split
  case isTrue h => rw [h]; rfl
  case isFalse => exact sum_split d

lemma spans_ne_nil (d : Duration) : d.spans ≠ [] := by
  rw [spans]
  split
  case isTrue => exact List.cons_ne_nil _ _
  case isFalse h =>
    intro hnil
    have hsum := sum_split d
    rw [hnil] at hsum
    exact h hsum.symm

lemma lt_of_mem_spans (h : p ∈ d.spans) (hp : p.2.wholeGrain = 1) : p.1 * p.2.length < ofParts 1 0 := by
  rw [spans] at h
  split at h
  · rw [List.mem_singleton.mp h]
    decide
  · exact lt_of_mem_split h hp

/-! ## How spans are spelled -/

/-- The name that a unit is written with behind a number. -/
def TimeUnit.nameFor (u : TimeUnit) (n : Nat) : String :=
  match u with
  | .nanosecond => "ns"
  | .microsecond => "us"
  | .millisecond => "ms"
  | .second => "s"
  | .minute => "m"
  | .hour => "h"
  | .day => if n = 1 then "day" else "days"
  | .week => if n = 1 then "week" else "weeks"
  | .month => if n = 1 then "month" else "months"
  | .year => if n = 1 then "year" else "years"

lemma TimeUnit.label_eq (u : TimeUnit) (n : Nat) : u.label n = n.repr ++ u.nameFor n := by
  cases u <;> simp only [label, nameFor, String.append_assoc]
  all_goals
    split <;> rfl

/-- There is a name for one and a name for more. -/
lemma TimeUnit.nameFor_cases (u : TimeUnit) (n : Nat) :
    u.nameFor n = u.nameFor 1 ∨ u.nameFor n = u.nameFor 2 := by
  by_cases h : n = 1
  · exact .inl (by rw [h])
  · cases u <;> simp [nameFor, h]

lemma TimeUnit.ofName?_nameFor (u : TimeUnit) (n : Nat) : ofName? (u.nameFor n) = some u := by
  rcases u.nameFor_cases n with h | h
  all_goals
    rw [h]
    cases u <;> decide

/-- Names of units are written in letters. -/
lemma TimeUnit.isAlpha_of_mem_nameFor (u : TimeUnit) (n : Nat) :
    ∀ c ∈ (u.nameFor n).toList, c.isAlpha = true := by
  rcases u.nameFor_cases n with h | h
  all_goals
    rw [h]
    cases u <;> simp [nameFor]

lemma TimeUnit.nameFor_ne_nil (u : TimeUnit) (n : Nat) : (u.nameFor n).toList ≠ [] := by
  rcases u.nameFor_cases n with h | h
  all_goals
    rw [h]
    cases u <;> decide

/-- The characters that spans are written with. -/
def spell (ps : List Span) : List Char :=
  [' '].intercalate (ps.map fun p => (p.2.label p.1).toList)

lemma spell_singleton (p : Span) : spell [p] = p.1.repr.toList ++ (p.2.nameFor p.1).toList := by
  rw [spell, List.map_singleton, List.intercalate_singleton, TimeUnit.label_eq, String.toList_append]

lemma spell_cons_cons (p q : Span) (ps : List Span) :
    spell (p :: q :: ps) = p.1.repr.toList ++ ((p.2.nameFor p.1).toList ++ ' ' :: spell (q :: ps)) := by
  rw [spell, List.map_cons, List.map_cons, List.intercalate_cons_cons, TimeUnit.label_eq,
    String.toList_append, List.append_assoc, List.append_assoc, List.singleton_append]
  rfl

/-- A length is written as its spans are spelled. -/
lemma human_toList (d : Duration) : d.human.toList = spell d.spans := by
  rw [human, spans]
  split
  case isTrue => rfl
  case isFalse =>
    rw [String.toList_intercalate, List.map_map]
    rfl

/-- The characters of a length that is written for people. -/
def IsSpelled (c : Char) : Prop :=
  c = ' ' ∨ c.isAlphanum = true

instance : DecidablePred IsSpelled :=
  fun c => inferInstanceAs (Decidable (c = ' ' ∨ c.isAlphanum = true))

lemma IsSpelled.ne {c' : Char} (h : IsSpelled c) (h' : ¬ IsSpelled c') : c ≠ c' := by
  rintro rfl
  exact h' h

lemma isAlpha_iff : c.isAlpha = true ↔ 65 ≤ c.toNat ∧ c.toNat ≤ 90 ∨ 97 ≤ c.toNat ∧ c.toNat ≤ 122 := by
  simp only [Char.isAlpha, Char.isUpper, Char.isLower, ge_iff_le, Bool.or_eq_true, Bool.and_eq_true,
    decide_eq_true_eq, UInt32.le_iff_toNat_le]
  exact Iff.rfl

lemma IsSpelled.bounds (h : IsSpelled c) : 0x20 ≤ c.toNat ∧ c.toNat < 0x7F := by
  rcases h with rfl | h
  · decide
  · rw [Char.isAlphanum, Bool.or_eq_true, isAlpha_iff, Text.isDigit_iff] at h
    omega

lemma isSpelled_of_isDigit (h : c.isDigit = true) : IsSpelled c :=
  .inr (by rw [Char.isAlphanum, h, Bool.or_true])

lemma isSpelled_of_isAlpha (h : c.isAlpha = true) : IsSpelled c :=
  .inr (by rw [Char.isAlphanum, h, Bool.true_or])

lemma isSpelled_of_mem_spell (h : c ∈ spell ps) : IsSpelled c := by
  have hspan (p : Span) (h : c ∈ p.1.repr.toList ∨ c ∈ (p.2.nameFor p.1).toList) : IsSpelled c :=
    h.elim (fun h => isSpelled_of_isDigit (Text.isDigit_of_mem_repr h))
      fun h => isSpelled_of_isAlpha (p.2.isAlpha_of_mem_nameFor p.1 c h)
  induction ps with
  | nil => cases h
  | cons p ps ih =>
    cases ps with
    | nil =>
      rw [spell_singleton, List.mem_append] at h
      exact hspan p h
    | cons q ps =>
      rw [spell_cons_cons, List.mem_append, List.mem_append, List.mem_cons] at h
      rcases h with h | h | rfl | h
      · exact hspan p (.inl h)
      · exact hspan p (.inr h)
      · exact .inl rfl
      · exact ih h

theorem isSpelled_of_mem_human (h : c ∈ d.human.toList) : IsSpelled c := by
  rw [human_toList] at h
  exact isSpelled_of_mem_spell h

/-- What is written starts with a digit. -/
lemma exists_spell (p : Span) (ps : List Span) : ∃ c cs, spell (p :: ps) = c :: cs ∧ c.isDigit = true := by
  obtain ⟨c, cs, he⟩ := List.exists_cons_of_ne_nil (Text.repr_ne_nil p.1)
  have hc : c.isDigit = true := Text.isDigit_of_mem_repr (by rw [he]; exact List.mem_cons_self)
  cases ps with
  | nil =>
    rw [spell_singleton, he]
    exact ⟨c, _, rfl, hc⟩
  | cons q ps =>
    rw [spell_cons_cons, he]
    exact ⟨c, _, rfl, hc⟩

/-- Each span takes a character at least, so the length of a text bounds how many spans it has. -/
lemma length_le_length_spell (ps : List Span) : ps.length ≤ (spell ps).length := by
  have hdigit (p : Span) := List.length_pos_of_ne_nil (Text.repr_ne_nil p.1)
  induction ps with
  | nil => exact Nat.zero_le _
  | cons p ps ih =>
    have hp := hdigit p
    cases ps with
    | nil =>
      rw [spell_singleton, List.length_append, List.length_singleton]
      omega
    | cons q ps =>
      rw [spell_cons_cons]
      simp only [List.length_append, List.length_cons] at ih ⊢
      omega

end StoreLock.Duration
