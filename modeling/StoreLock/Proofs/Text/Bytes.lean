import Mathlib
import StoreLock.Text.Utf8

/-!
# The order of bytes

Texts compare by their UTF-8 bytes as they do by their characters. An encoded character tells by its
first byte how many bytes it has, and among characters of one length the bytes are its digits to the
base 64, the highest first; so a smaller character is encoded below a larger one whatever follows
either (`utf8EncodeChar_append_lt`), and the order of texts follows from the first character in which
they differ.
-/

namespace StoreLock.Text

/-- The bytes of a text are those of its characters. -/
lemma toUtf8_eq_flatMap (s : String) : toUtf8 s = s.toList.flatMap String.utf8EncodeChar := by
  rw [toUtf8, String.toUTF8, ← String.utf8Encode_toList, List.utf8Encode, List.data_toByteArray]

/-- A smaller character is encoded below a larger one, whatever follows. -/
lemma utf8EncodeChar_append_lt {c d : Char} (h : c < d) (u v : List UInt8) :
    String.utf8EncodeChar c ++ u < String.utf8EncodeChar d ++ v := by
  have hlt : c.val.toNat < d.val.toNat := UInt32.lt_iff_toNat_lt.mp h
  have hd : d.val.toNat < 1114112 := by
    rcases d.valid with h | h
    · lia
    · exact h.2
  -- Both encodings are lists of digits of the two codes, so what is left is arithmetic.
  simp only [String.utf8EncodeChar]
  generalize c.val.toNat = n at *
  generalize d.val.toNat = m at *
  split_ifs <;>
    simp (disch := omega) only [List.cons_append, List.nil_append, List.cons_lt_cons_iff,
      UInt8.lt_iff_toNat_lt, ← UInt8.toNat_inj, UInt8.toNat_ofNat', Nat.mod_eq_of_lt] <;>
    omega

lemma utf8EncodeChar_ne_nil (c : Char) : String.utf8EncodeChar c ≠ [] := by
  simp only [String.utf8EncodeChar]
  split_ifs <;> exact List.cons_ne_nil _ _

/-- Texts in their order are encoded in the order of their bytes. -/
lemma flatMap_utf8EncodeChar_lt {s t : List Char} (h : s < t) :
    s.flatMap String.utf8EncodeChar < t.flatMap String.utf8EncodeChar := by
  induction h with
  | @nil d t =>
    obtain ⟨b, bs, e⟩ := List.exists_cons_of_ne_nil (utf8EncodeChar_ne_nil d)
    rw [List.flatMap_nil, List.flatMap_cons, e]
    exact List.Lex.nil
  | rel h => exact utf8EncodeChar_append_lt h _ _
  | cons _ ih => exact List.append_left_lt ih

/-- One text comes before another by their bytes if and only if it does by their characters. -/
theorem toUtf8_lt_toUtf8_iff {s t : String} : toUtf8 s < toUtf8 t ↔ s < t := by
  rw [toUtf8_eq_flatMap, toUtf8_eq_flatMap, String.lt_iff_toList_lt]
  constructor
  · intro h
    -- In the other two cases the bytes would be in the wrong order, or equal.
    rcases lt_trichotomy s.toList t.toList with hlt | heq | hgt
    · exact hlt
    · rw [heq] at h
      exact absurd h (List.lt_irrefl _)
    · exact absurd h (List.lt_asymm (flatMap_utf8EncodeChar_lt hgt))
  · exact flatMap_utf8EncodeChar_lt

end StoreLock.Text
