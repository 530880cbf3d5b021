import StoreLock.Marker
import StoreLock.Proofs.Entry.Codec
import StoreLock.Proofs.Text.Number

/-!
# Quoted texts

A text in quotes is read back as that text, whatever characters it has (`readString_quote`). A character is
written in one of three ways (`quoteChar_cases`), and each of them is read as the bytes that the character
itself is encoded with (`readStringBytes_quoteChar`). What is written as it stands is read byte by byte:
the first byte of a character of ASCII is its only one, and all bytes of any other are beyond ASCII, so none
is taken for a quote, a backslash or a control.
-/

namespace StoreLock

namespace Text

lemma toUtf8_append (s t : String) : toUtf8 (s ++ t) = toUtf8 s ++ toUtf8 t := by
  rw [toUtf8_eq_flatMap, toUtf8_eq_flatMap, toUtf8_eq_flatMap, String.toList_append, List.flatMap_append]

lemma toUtf8_ofList (cs : List Char) : toUtf8 (String.ofList cs) = cs.flatMap String.utf8EncodeChar := by
  rw [toUtf8_eq_flatMap, String.toList_ofList]

lemma ofUtf8?_toUtf8 (s : String) : ofUtf8? (toUtf8 s) = some s := by
  rw [ofUtf8?, toUtf8, Array.toArray_toList, String.fromUTF8?]
  exact dif_pos s.isValidUTF8

/-- All bytes of a character that takes more than one are beyond ASCII. -/
lemma lt_of_mem_utf8EncodeChar {c : Char} (h : 127 < c.val.toNat) :
    ∀ b ∈ String.utf8EncodeChar c, 127 < b.toNat := by
  simp only [String.utf8EncodeChar]
  rw [if_neg (by omega)]
  split_ifs <;> simp only [List.forall_mem_cons, UInt8.toNat_ofNat', List.not_mem_nil, false_implies,
    implies_true, and_true] <;> omega

end Text

namespace Json

/-- A character is written as an escape of one letter, as an escape of four digits or as it stands. -/
inductive Quotes (c : Char) : List Char → Prop where
  | letter {e} :
    e.toNat ≤ 127 →
    byte e ≠ byte 'u' →
    escaped? (byte e) = some (byte c) →
    c.toNat ≤ 127 →
    Quotes c ['\\', e]
  | digits :
    c.toNat < 0x20 →
    Quotes c ['\\', 'u', '0', '0', Text.hexDigit (c.toNat / 16), Text.hexDigit (c.toNat % 16)]
  | plain :
    0x20 ≤ c.toNat →
    c ≠ '"' →
    c ≠ '\\' →
    Quotes c [c]

variable {c : Char} {b : UInt8} {bs rest : Bytes} {n : Nat} {s : String}

/-- Whether a byte inside a string stands for itself. -/
structure IsPlain (b : UInt8) : Prop where
  ne_quote : b ≠ byte '"'
  not_control : ¬ b < 0x20
  ne_backslash : b ≠ byte '\\'

lemma utf8EncodeChar_eq_byte (h : c.toNat ≤ 127) : String.utf8EncodeChar c = [byte c] :=
  Text.utf8EncodeChar_of_le h

lemma toNat_byte (h : c.toNat ≤ 127) : (byte c).toNat = c.toNat := by
  rw [byte, Nat.toUInt8_eq, UInt8.toNat_ofNat']
  omega

lemma ofUInt8_byte (h : c.toNat ≤ 127) : Char.ofUInt8 (byte c) = c := by
  rw [← Char.toNat_inj]
  exact toNat_byte h

lemma eq_of_byte_eq {c' : Char} (h : c.toNat ≤ 127) (h' : c'.toNat ≤ 127) (he : byte c = byte c') :
    c = c' := by
  rw [← ofUInt8_byte h, he, ofUInt8_byte h']

@[simp] lemma prepend_nil (read : Option (Bytes × Bytes)) : prepend [] read = read := by
  cases read <;> rfl

lemma prepend_append (bs bs' : Bytes) (read : Option (Bytes × Bytes)) :
    prepend (bs ++ bs') read = prepend bs (prepend bs' read) := by
  cases read with
  | none => rfl
  | some p => simp [prepend]

lemma readStringBytes_of_plain (h : IsPlain b) :
    readStringBytes (b :: rest) = prepend [b] (readStringBytes rest) := by
  rw [readStringBytes.eq_def]
  simp only [if_neg h.ne_quote, if_neg h.not_control, if_pos h.ne_backslash]

lemma readStringBytes_append (h : ∀ b ∈ bs, IsPlain b) :
    readStringBytes (bs ++ rest) = prepend bs (readStringBytes rest) := by
  induction bs with
  | nil => exact (prepend_nil _).symm
  | cons b bs ih =>
    obtain ⟨hb, hbs⟩ := List.forall_mem_cons.mp h
    rw [List.cons_append, readStringBytes_of_plain hb, ih hbs, ← prepend_append, List.singleton_append]

/-- An escape of one letter. -/
lemma readStringBytes_letter {e : UInt8} (he : e ≠ byte 'u') (hb : escaped? e = some b) :
    readStringBytes (byte '\\' :: e :: rest) = prepend [b] (readStringBytes rest) := by
  rw [readStringBytes.eq_def]
  simp only
  rw [if_neg (by decide), if_neg (by decide), if_neg (by decide), if_pos he]
  simp only [hb]

/-- An escape of four digits that is no surrogate. -/
lemma readStringBytes_unit {h₁ h₂ h₃ h₄ : UInt8} (hu : unit? h₁ h₂ h₃ h₄ = some n) (hn : n < 0xD800) :
    readStringBytes (byte '\\' :: byte 'u' :: h₁ :: h₂ :: h₃ :: h₄ :: rest) =
      prepend (utf8 n) (readStringBytes rest) := by
  rw [readStringBytes.eq_def]
  simp only
  rw [if_neg (by decide), if_neg (by decide), if_neg (by decide), if_neg (by decide)]
  simp only [hu]
  rw [if_pos (.inl hn)]

lemma readStringBytes_quote : readStringBytes (byte '"' :: rest) = some ([], rest) := by
  rw [readStringBytes.eq_def]
  simp

lemma quotes (c : Char) : Quotes c (Marker.quoteChar c) := by
  rw [Marker.quoteChar]
  split_ifs with hquote hbackslash _ _ _ _ _ hcontrol
  -- The first seven cases are those of one letter.
  iterate 7
    · subst_vars
      apply Quotes.letter <;> decide
  · exact .digits hcontrol
  · exact .plain (Nat.le_of_not_lt hcontrol) hquote hbackslash

/-- All bytes of a character that is written as it stands do so too. -/
lemma isPlain_of_mem (h : 0x20 ≤ c.toNat) (hquote : c ≠ '"') (hbackslash : c ≠ '\\') :
    ∀ b ∈ String.utf8EncodeChar c, IsPlain b := by
  by_cases hc : c.toNat ≤ 127
  · rw [utf8EncodeChar_eq_byte hc, List.forall_mem_singleton]
    refine ⟨mt (eq_of_byte_eq hc (by decide)) hquote, ?_, mt (eq_of_byte_eq hc (by decide)) hbackslash⟩
    rw [UInt8.lt_iff_toNat_lt, toNat_byte hc]
    exact Nat.not_lt.mpr h
  · intro b hb
    have hb := Text.lt_of_mem_utf8EncodeChar (Nat.lt_of_not_le hc) b hb
    refine ⟨?_, ?_, ?_⟩
    · rintro rfl
      exact absurd hb (by decide)
    · rw [UInt8.lt_iff_toNat_lt]
      exact Nat.not_lt.mpr (Nat.le_trans (by decide) hb)
    · rintro rfl
      exact absurd hb (by decide)

/-- The four digits that a control is written with are read as its code. -/
lemma unit?_digits (hn : n < 0x20) : unit? (byte '0') (byte '0') (byte (Text.hexDigit (n / 16)))
    (byte (Text.hexDigit (n % 16))) = some n := by
  revert n
  decide

lemma utf8_toNat (c : Char) : utf8 c.toNat = String.utf8EncodeChar c := by
  rw [utf8, Char.ofNat_toNat, Text.toUtf8_eq_flatMap]
  simp [Char.toString]

/-- However a character is written, it is read as the bytes that it is encoded with. -/
theorem readStringBytes_quoteChar (c : Char) (rest : Bytes) :
    readStringBytes ((Marker.quoteChar c).flatMap String.utf8EncodeChar ++ rest) =
      prepend (String.utf8EncodeChar c) (readStringBytes rest) := by
  have h := quotes c
  generalize Marker.quoteChar c = cs at h
  cases h with
  | letter he hu hb hc =>
    rw [List.flatMap_cons, List.flatMap_singleton, utf8EncodeChar_eq_byte (c := '\\') (by decide),
      utf8EncodeChar_eq_byte he, utf8EncodeChar_eq_byte hc]
    exact readStringBytes_letter hu hb
  | digits hc =>
    have hdigit : ∀ d < 16, (Text.hexDigit d).toNat ≤ 127 := by decide
    simp only [List.flatMap_cons, List.flatMap_nil,
      utf8EncodeChar_eq_byte (hdigit (c.toNat / 16) (by omega)),
      utf8EncodeChar_eq_byte (hdigit (c.toNat % 16) (by omega)), List.cons_append, List.nil_append]
    rw [← utf8_toNat c]
    exact readStringBytes_unit (unit?_digits hc) (by omega)
  | plain h hquote hbackslash =>
    rw [List.flatMap_singleton]
    exact readStringBytes_append (isPlain_of_mem h hquote hbackslash)

/-- A quoted text is read up to its closing quote. -/
lemma readStringBytes_flatMap (cs : List Char) (rest : Bytes) :
    readStringBytes ((cs.flatMap Marker.quoteChar).flatMap String.utf8EncodeChar ++ byte '"' :: rest) =
      some (cs.flatMap String.utf8EncodeChar, rest) := by
  induction cs with
  | nil => exact readStringBytes_quote
  | cons c cs ih =>
    rw [List.flatMap_cons, List.flatMap_append, List.append_assoc, readStringBytes_quoteChar, ih]
    rfl

lemma skipBlank_of_not_blank (h : isBlank b = false) : skipBlank (b :: rest) = b :: rest := by
  rw [skipBlank, List.dropWhile_cons_of_neg (by simp [h])]

lemma toUtf8_quote (s : String) : Text.toUtf8 (Marker.quote s) =
    byte '"' :: ((s.toList.flatMap Marker.quoteChar).flatMap String.utf8EncodeChar ++ [byte '"']) := by
  rw [Marker.quote, Text.toUtf8_ofList, List.flatMap_append, List.flatMap_cons]
  rfl

/-- A text in quotes is read back, whatever follows it. -/
theorem readString_quote (s : String) (rest : Bytes) :
    readString (Text.toUtf8 (Marker.quote s) ++ rest) = some (s, rest) := by
  rw [toUtf8_quote, List.cons_append, List.append_assoc, List.singleton_append, readString,
    skipBlank_of_not_blank (by decide)]
  simp only [if_true, readStringBytes_flatMap]
  rw [← Text.toUtf8_eq_flatMap, Text.ofUtf8?_toUtf8]
  rfl

end Json

end StoreLock
