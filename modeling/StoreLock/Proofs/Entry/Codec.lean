import StoreLock.Proofs.Entry.NameOrder

/-!
# Reading and writing entry names

An entry name reads as an entry if and only if it is what that entry is written as, its prefix is not
empty and its owner is an id (`Entry.read_eq_ok_iff`): no other spelling reads as the same entry, and
nothing that can be written is refused. What is an id is told by its bytes (`OwnerId.IsId`). An id is
written with single bytes only, so counting and looking at its characters comes to the same
(`OwnerId.accepts_iff`).
-/

namespace StoreLock

namespace Text

lemma length_toUtf8 (s : String) : (toUtf8 s).length = s.utf8ByteSize :=
  rfl

lemma mem_toUtf8 {s : String} {b : UInt8} :
    b ∈ toUtf8 s ↔ ∃ c ∈ s.toList, b ∈ String.utf8EncodeChar c := by
  rw [toUtf8_eq_flatMap, List.mem_flatMap]

lemma utf8EncodeChar_of_le {c : Char} (h : c.val.toNat ≤ 127) :
    String.utf8EncodeChar c = [UInt8.ofNat c.val.toNat] := by
  simp only [String.utf8EncodeChar]
  rw [if_pos h]

/-- A character that takes more than one byte is written with a byte that is not of ASCII. -/
lemma exists_mem_utf8EncodeChar {c : Char} (h : 127 < c.val.toNat) :
    ∃ b ∈ String.utf8EncodeChar c, 127 < b.toNat := by
  simp only [String.utf8EncodeChar]
  rw [if_neg (by omega)]
  split_ifs
  all_goals
    refine ⟨_, List.mem_cons_self, ?_⟩
    rw [UInt8.toNat_ofNat']
    omega

end Text

namespace OwnerId

/-- Whether a byte may stand in an id: `A` to `Z`, `a` to `z`, `0` to `9` and `-`. -/
def IsIdByte (b : UInt8) : Prop :=
  (65 ≤ b.toNat ∧ b.toNat ≤ 90) ∨ (97 ≤ b.toNat ∧ b.toNat ≤ 122) ∨
    (48 ≤ b.toNat ∧ b.toNat ≤ 57) ∨ b.toNat = 45

/-- Whether a text is an id: 1 to 128 bytes that may stand in one. -/
structure IsId (text : String) : Prop where
  pos : 1 ≤ (Text.toUtf8 text).length
  le : (Text.toUtf8 text).length ≤ 128
  bytes : ∀ b ∈ Text.toUtf8 text, IsIdByte b

lemma allows_eq_true_iff {c : Char} : allows c = true ↔
    (65 ≤ c.val.toNat ∧ c.val.toNat ≤ 90) ∨ (97 ≤ c.val.toNat ∧ c.val.toNat ≤ 122) ∨
      (48 ≤ c.val.toNat ∧ c.val.toNat ≤ 57) ∨ c.val.toNat = 45 := by
  have hdash : c = '-' ↔ c.val.toNat = 45 := by
    rw [← Char.toNat_inj]
    exact Iff.rfl
  simp only [allows, Char.isAlphanum, Char.isAlpha, Char.isUpper, Char.isLower, Char.isDigit, ge_iff_le,
    Bool.or_eq_true, Bool.and_eq_true, decide_eq_true_eq, beq_iff_eq, UInt32.le_iff_toNat_le, hdash,
    or_assoc]
  exact Iff.rfl

/-- A character is allowed if and only if the bytes that it is written with are. -/
lemma allows_iff {c : Char} : allows c = true ↔ ∀ b ∈ String.utf8EncodeChar c, IsIdByte b := by
  rw [allows_eq_true_iff]
  by_cases h : c.val.toNat ≤ 127
  · have hb : (UInt8.ofNat c.val.toNat).toNat = c.val.toNat := by
      rw [UInt8.toNat_ofNat']
      omega
    rw [Text.utf8EncodeChar_of_le h, List.forall_mem_singleton, IsIdByte, hb]
  · obtain ⟨b, hb, hlt⟩ := Text.exists_mem_utf8EncodeChar (Nat.lt_of_not_le h)
    constructor
    · intro hc
      omega
    · intro hall
      have hid := hall b hb
      rw [IsIdByte] at hid
      omega

theorem accepts_iff {text : String} : accepts text = true ↔ IsId text := by
  have hpos : text.isEmpty = false ↔ 1 ≤ text.utf8ByteSize := by
    rw [String.isEmpty, beq_eq_false_iff_ne]
    exact Nat.one_le_iff_ne_zero.symm
  have hbytes : (∀ c ∈ text.toList, allows c = true) ↔ ∀ b ∈ Text.toUtf8 text, IsIdByte b := by
    simp only [allows_iff, Text.mem_toUtf8]
    constructor
    · intro h b hb
      obtain ⟨c, hc, hb⟩ := hb
      exact h c hc b hb
    · intro h c hc b hb
      exact h b ⟨c, hc, hb⟩
  rw [accepts, Bool.and_eq_true, Bool.and_eq_true, Bool.not_eq_true', decide_eq_true_eq,
    List.all_eq_true, hpos, hbytes]
  constructor
  · intro h
    exact ⟨h.1.1, h.1.2, h.2⟩
  · intro h
    exact ⟨⟨h.pos, h.le⟩, h.bytes⟩

/-- A text makes an id if and only if it is one, and then the id is that text. -/
lemma ofText_eq_ok_iff {text : String} {o : OwnerId} :
    ofText text = .ok o ↔ o.text = text ∧ IsId text := by
  rw [ofText, ← accepts_iff]
  split
  case isTrue h =>
    rw [Except.ok.injEq, and_iff_left h]
    constructor
    · intro ho
      rw [← ho]
    · intro ho
      rw [← ho]
  case isFalse h =>
    constructor
    · intro ho
      cases ho
    · intro ho
      exact absurd ho.2 h

end OwnerId

namespace Entry

variable {n : String} {e : Entry}

theorem read_eq_ok_iff : read n = .ok e ↔ e.Proper ∧ n = e.name := by
  constructor
  · intro h
    obtain ⟨hname, hproper⟩ := name_of_read h
    exact ⟨hproper, hname.symm⟩
  · intro h
    rw [h.2]
    exact read_name h.1

lemma ofName_eq_ok : ofName n = .ok e ↔ read n = .ok e := by
  rw [ofName]
  cases read n with
  | ok e' => simp [Except.mapError]
  | error fault => simp [Except.mapError]

lemma proper_iff : e.Proper ↔ e.lockPrefix ≠ "" ∧ OwnerId.IsId e.owner.text := by
  rw [← OwnerId.accepts_iff]
  constructor
  · intro h
    exact ⟨h.lockPrefix, h.owner⟩
  · intro h
    exact ⟨h.1, h.2⟩

/-- A name is that of an entry if and only if it is written from a prefix that is not empty, a sequence
and the id of an owner. So what is written reads as what it was written from, whatever the prefix looks
like, and what has been read is written with the same bytes again. -/
theorem ofName_eq_ok_iff :
    (∀ (n : String) (e : Entry), ofName n = .ok e ↔
      e.lockPrefix ≠ "" ∧ OwnerId.ofText e.owner.text = .ok e.owner ∧ n = e.name) ∧
    (∀ (text : String) (o : OwnerId),
      OwnerId.ofText text = .ok o ↔ o.text = text ∧ OwnerId.IsId text) ∧
    (∀ (lockPrefix : String) (sequence : UInt64) (o : OwnerId), lockPrefix ≠ "" →
      OwnerId.ofText o.text = .ok o →
      ofName (name ⟨lockPrefix, sequence, o⟩) = .ok ⟨lockPrefix, sequence, o⟩) ∧
    ∀ (n : String) (e : Entry), ofName n = .ok e → Text.toUtf8 e.name = Text.toUtf8 n := by
  have reads (n : String) (e : Entry) : ofName n = .ok e ↔
      e.lockPrefix ≠ "" ∧ OwnerId.ofText e.owner.text = .ok e.owner ∧ n = e.name := by
    rw [ofName_eq_ok, read_eq_ok_iff, proper_iff, OwnerId.ofText_eq_ok_iff, eq_self, true_and,
      and_assoc]
  refine ⟨reads, fun _ _ => OwnerId.ofText_eq_ok_iff, ?_, ?_⟩
  · intro lockPrefix sequence o hp ho
    rw [reads]
    exact ⟨hp, ho, rfl⟩
  · intro n e h
    rw [((reads n e).mp h).2.2]

/-- A prefix that is itself the name of an entry stays apart from the sequence and the owner behind
it. -/
theorem ofName_nested :
    "p_00000000000000000001_q" ≠ "" ∧ OwnerId.ofText "a-9" = .ok ⟨"a-9"⟩ ∧
      name ⟨"p_00000000000000000001_q", 42, ⟨"a-9"⟩⟩ =
        "p_00000000000000000001_q_00000000000000000042_a-9" ∧
      ofName "p_00000000000000000001_q_00000000000000000042_a-9" =
        .ok ⟨"p_00000000000000000001_q", 42, ⟨"a-9"⟩⟩ := by
  have hp : "p_00000000000000000001_q" ≠ "" := by
    decide
  have ho : OwnerId.ofText "a-9" = .ok ⟨"a-9"⟩ := by
    decide
  have hn : name ⟨"p_00000000000000000001_q", 42, ⟨"a-9"⟩⟩ =
      "p_00000000000000000001_q_00000000000000000042_a-9" := by
    decide +kernel
  refine ⟨hp, ho, hn, ?_⟩
  rw [← hn]
  exact ofName_eq_ok_iff.2.2.1 _ 42 ⟨"a-9"⟩ hp ho

end Entry

end StoreLock
