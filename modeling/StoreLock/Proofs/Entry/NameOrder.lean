import StoreLock.Proofs.Entry.Order
import StoreLock.Proofs.Text.Bytes

/-!
# Names in their order

A name reads as an entry only if it is the name of that entry (`name_of_read`), and the names of
entries of one prefix stand in the order of their bytes as the entries do in theirs
(`toUtf8_name_lt_iff`): the prefix is common to both names, the digits of the sequences have one
width, and the owners come last.
-/

namespace StoreLock

namespace Text

/-- A digit is written with the character it was read from. -/
lemma digit_digitValue {c : Char} (h : c.isDigit = true) : digit (digitValue c) = c := by
  rw [isDigit_iff] at h
  have he : 48 + (c.toNat - 48) % 10 = c.toNat := by
    lia
  rw [digit, digitValue, show '0'.toNat = 48 from rfl, he, Char.ofNat_toNat]

lemma digitValue_lt {c : Char} (h : c.isDigit = true) : digitValue c < 10 := by
  have hd := digitValue_digit (digitValue c)
  rw [digit_digitValue h] at hd
  rw [hd]
  exact Nat.mod_lt _ (by decide)

/-- Digits are those that their number is written with. -/
lemma padded_number {digits : List Char} (h : ∀ c ∈ digits, c.isDigit = true) :
    padded digits.length (number digits) = digits := by
  induction digits using List.reverseRecOn with
  | nil => rfl
  | append_singleton digits c ih =>
    have hc := h c (by simp)
    have hdiv : (10 * number digits + digitValue c) / 10 = number digits := by
      have := digitValue_lt hc
      lia
    have hlast : digit (10 * number digits + digitValue c) = c := by
      rw [digit, Nat.mul_add_mod, ← digit, digit_digitValue hc]
    rw [List.length_append, List.length_singleton, padded, number_concat, hdiv, hlast,
      ih fun d hd => h d (List.mem_append_left _ hd)]

/-- Texts that begin with pieces of one length are in the order of these, or of what follows. -/
lemma append_lt_append_iff {a b u v : List Char} (h : a.length = b.length) :
    a ++ u < b ++ v ↔ a < b ∨ (a = b ∧ u < v) := by
  induction a generalizing b with
  | nil =>
    cases b with
    | nil => simp
    | cons d b => cases h
  | cons c a ih =>
    cases b with
    | nil => cases h
    | cons d b =>
      rw [List.cons_append, List.cons_append, List.cons_lt_cons_iff, List.cons_lt_cons_iff,
        ih (Nat.succ.inj h), List.cons.injEq]
      tauto

lemma digit_lt_digit_iff {n m : Nat} : digit n < digit m ↔ n % 10 < m % 10 := by
  change (digit n).val < (digit m).val ↔ _
  rw [UInt32.lt_iff_toNat_lt]
  change (digit n).toNat < (digit m).toNat ↔ _
  rw [toNat_digit, toNat_digit, Nat.add_lt_add_iff_left]

/-- Padded digits write numbers of their width in one way only. -/
lemma padded_inj {w n m : Nat} (hn : n < 10 ^ w) (hm : m < 10 ^ w) :
    padded w n = padded w m ↔ n = m := by
  constructor
  · intro h
    have hnum := congrArg number h
    rwa [number_padded, number_padded, Nat.mod_eq_of_lt hn, Nat.mod_eq_of_lt hm] at hnum
  · rintro rfl
    rfl

/-- Padded digits stand in the order of the numbers they write. -/
lemma padded_lt_padded_iff {w n m : Nat} (hn : n < 10 ^ w) (hm : m < 10 ^ w) :
    padded w n < padded w m ↔ n < m := by
  induction w generalizing n m with
  | zero =>
    rw [pow_zero, Nat.lt_one_iff] at hn hm
    simp [padded, hn, hm]
  | succ w ih =>
    rw [pow_succ] at hn hm
    have hn' : n / 10 < 10 ^ w := by lia
    have hm' : m / 10 < 10 ^ w := by lia
    rw [padded, padded, append_lt_append_iff (by rw [length_padded, length_padded]), ih hn' hm',
      padded_inj hn' hm', List.cons_lt_cons_iff, digit_lt_digit_iff]
    simp only [List.lt_irrefl, and_false, or_false]
    lia

lemma compare_eq_lt {s t : String} : compare s t = .lt ↔ s.toList < t.toList := by
  change (if s.toList < t.toList then Ordering.lt else if s = t then .eq else .gt) = .lt ↔ _
  split_ifs with hlt heq
  · simp [hlt]
  · simp [hlt]
  · simp [hlt]

end Text

namespace Entry

/-- Whether a name is that of an entry in the queue of a lock prefix. -/
def IsQueued (lockPrefix n : String) : Prop :=
  ∃ e, read n = .ok e ∧ e.lockPrefix = lockPrefix

/-- A name reads only as the entry that it names, and that entry is a proper one. -/
theorem name_of_read {n : String} {e : Entry} (h : read n = .ok e) : e.name = n ∧ e.Proper := by
  rw [read] at h
  split at h
  case h_1 => cases h
  case h_2 rest owner hr =>
    split at h
    case h_1 => cases h
    case h_2 lockPrefix digits hd =>
      split_ifs at h with hp hdig hrange ho
      cases h
      rw [not_or, Decidable.not_not, Decidable.not_not, List.all_eq_true] at hdig
      obtain ⟨hlen, hall⟩ := hdig
      refine ⟨?_, ?_, ho⟩
      · have hnum : (Text.number digits).toUInt64.toNat = Text.number digits := by
          rw [Nat.toUInt64, UInt64.toNat_ofNat']
          exact Nat.mod_eq_of_lt (by simpa [UInt64.size] using hrange)
        apply String.toList_inj.mp
        rw [toList_name, Text.eq_append_of_splitLast hr, Text.eq_append_of_splitLast hd]
        simp only [hnum, String.toList_ofList]
        rw [← hlen, Text.padded_number hall]
      · rw [ne_eq, ← String.toList_eq_nil_iff, String.toList_ofList]
        simpa using hp

/-- The sequence of an entry has no more digits than its name has room for. -/
lemma sequence_lt (e : Entry) : e.sequence.toNat < 10 ^ sequenceWidth := by
  have := e.sequence.toNat_lt
  rw [sequenceWidth]
  lia

/-- Names of entries of one prefix stand in the order of the entries. -/
theorem name_lt_name_iff {a b : Entry} (h : a.lockPrefix = b.lockPrefix) :
    a.name < b.name ↔ compare a b = .lt := by
  have hseq : a.sequence.toNat = b.sequence.toNat ↔ a.sequence = b.sequence := UInt64.toNat_inj
  rw [String.lt_iff_toList_lt, toList_name, toList_name, h, compare_def, h]
  -- Both names begin with the prefix; behind the separator stand as many digits in both.
  simp only [List.append_assoc, List.cons_append]
  rw [Text.append_lt_append_iff rfl, List.cons_lt_cons_iff,
    Text.append_lt_append_iff (by rw [Text.length_padded, Text.length_padded]),
    Text.padded_lt_padded_iff a.sequence_lt b.sequence_lt,
    Text.padded_inj a.sequence_lt b.sequence_lt, List.cons_lt_cons_iff]
  rw [Ordering.then_eq_lt, Ordering.then_eq_lt, Text.compare_eq_lt, Std.compare_eq_lt,
    Std.LawfulEqCmp.compare_eq_iff_eq, Text.compare_eq_lt, Std.LawfulEqCmp.compare_eq_iff_eq, hseq,
    UInt64.lt_iff_toNat_lt]
  simp

/-- The bytes of such names do too. -/
theorem toUtf8_name_lt_iff {a b : Entry} (h : a.lockPrefix = b.lockPrefix) :
    Text.toUtf8 a.name < Text.toUtf8 b.name ↔ compare a b = .lt := by
  rw [Text.toUtf8_lt_toUtf8_iff, name_lt_name_iff h]

/-- One entry comes no later than another unless the other's name has the smaller bytes. -/
theorem le_iff_not_toUtf8_lt {a b : Entry} (h : a.lockPrefix = b.lockPrefix) :
    a.le b = true ↔ ¬ Text.toUtf8 b.name < Text.toUtf8 a.name := by
  rw [toUtf8_name_lt_iff h.symm, le, Std.OrientedOrd.eq_swap (a := a)]
  cases compare b a <;> decide

end Entry

end StoreLock
