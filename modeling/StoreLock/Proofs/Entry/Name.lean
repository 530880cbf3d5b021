import StoreLock.Entry
import StoreLock.Proofs.Text.Number
import StoreLock.Proofs.Text.Split

/-!
# Entry names

The name of an entry reads back as that entry, for every non-empty prefix and every accepted owner.
The name is cut at its last two separators, so what matters is that neither the twenty digits nor
the owner contains one; `splitLast_append` does the cutting and `number_padded` reads the digits.
-/

namespace StoreLock

namespace Text

/-- The code of a written digit. -/
lemma toNat_digit (n : Nat) : (digit n).toNat = 48 + n % 10 := by
  have hv : (48 + n % 10).isValidChar := by
    left
    omega
  rw [digit, show '0'.toNat = 48 from rfl, Char.toNat_ofNat, if_pos hv]

@[simp] lemma digitValue_digit (n : Nat) : digitValue (digit n) = n % 10 := by
  rw [digitValue, toNat_digit, show '0'.toNat = 48 from rfl]
  omega

@[simp] lemma isDigit_digit (n : Nat) : (digit n).isDigit = true := by
  rw [isDigit_iff, toNat_digit]
  omega

@[simp] lemma length_padded (w n : Nat) : (padded w n).length = w := by
  induction w generalizing n with
  | zero => rfl
  | succ w ih => simp [padded, ih]

lemma isDigit_of_mem_padded {w n : Nat} {c : Char} (hc : c ∈ padded w n) : c.isDigit = true := by
  induction w generalizing n with
  | zero => cases hc
  | succ w ih =>
    rw [padded, List.mem_append, List.mem_singleton] at hc
    rcases hc with hc | rfl
    · exact ih hc
    · exact isDigit_digit n

lemma number_concat (digits : List Char) (c : Char) :
    number (digits ++ [c]) = 10 * number digits + digitValue c := by
  simp [number, List.foldl_append]

/-- Padded digits write the number, as far as the width goes. -/
lemma number_padded (w n : Nat) : number (padded w n) = n % 10 ^ w := by
  induction w generalizing n with
  | zero => simp [padded, number, Nat.mod_one]
  | succ w ih =>
    rw [padded, number_concat, ih, digitValue_digit, pow_succ, Nat.mul_comm (10 ^ w) 10,
      Nat.mod_mul, Nat.add_comm]

end Text

namespace OwnerId

/-- An accepted id holds no separator. -/
lemma separator_not_mem {text : String} (h : accepts text = true) :
    Entry.separator ∉ text.toList := by
  intro hm
  simp only [accepts, Bool.and_eq_true, List.all_eq_true] at h
  exact absurd (h.2 _ hm) (by decide)

end OwnerId

namespace Entry

/-- An entry that a lock can have created: its prefix is not empty and its owner is accepted. -/
structure Proper (e : Entry) : Prop where
  lockPrefix : e.lockPrefix ≠ ""
  owner : OwnerId.accepts e.owner.text = true

lemma toList_name (e : Entry) :
    e.name.toList = (e.lockPrefix.toList ++ separator ::
      Text.padded sequenceWidth e.sequence.toNat) ++ separator :: e.owner.text.toList := by
  simp [name, String.toList_append, Char.toString]

lemma separator_not_mem_padded (w n : Nat) : separator ∉ Text.padded w n := by
  intro hm
  exact absurd (Text.isDigit_of_mem_padded hm) (by decide)

/-- The digits of a sequence are read back as that sequence. -/
lemma number_sequence (n : UInt64) : Text.number (Text.padded sequenceWidth n.toNat) = n.toNat := by
  have hn := n.toNat_lt
  rw [Text.number_padded, sequenceWidth]
  exact Nat.mod_eq_of_lt (by omega)

/-- Reading the name of a proper entry gives the entry back. -/
theorem read_name {e : Entry} (h : e.Proper) : read e.name = .ok e := by
  have hp : e.lockPrefix.toList.isEmpty = false := by
    simpa [List.isEmpty_iff, String.toList_eq_nil_iff] using h.lockPrefix
  have hd : (Text.padded sequenceWidth e.sequence.toNat).all Char.isDigit = true :=
    List.all_eq_true.mpr fun _ hc => Text.isDigit_of_mem_padded hc
  have hn := e.sequence.toNat_lt
  rw [read, toList_name, Text.splitLast_append _ (OwnerId.separator_not_mem h.owner)]
  simp only [Text.splitLast_append _ (separator_not_mem_padded _ _), hp, hd, number_sequence,
    Text.length_padded, String.ofList_toList, h.owner]
  rw [if_neg (by simp), if_neg (by simp), if_neg (by simp only [UInt64.size]; omega)]
  simp

/-- The name of an entry starts with what its lock lists. -/
theorem startsWith_listing (e : Entry) : Text.startsWith e.name (listing e.lockPrefix) = true := by
  rw [Text.startsWith, List.isPrefixOf_iff_prefix, toList_name]
  refine ⟨Text.padded sequenceWidth e.sequence.toNat ++ separator :: e.owner.text.toList, ?_⟩
  simp [listing, Char.toString]

/-- The entry of a name is determined by the name. -/
lemma eq_of_read {n : String} {e e' : Entry} (h : read n = .ok e) (h' : read n = .ok e') :
    e = e' := by
  rw [h] at h'
  exact Except.ok.inj h'

end Entry

end StoreLock
