import StoreLock.Proofs.Json.Quoted

/-!
# Objects

An object is written as its members in braces, with a comma between any two of them (`object`). It is read
back if its members are (`readRecord_object`): reading takes them up one after another (`Takes`), each of
them with the comma or the brace behind it, and needs no more fuel than the object has bytes. The values of
members are texts (`readString_quote`) or whole numbers (`readUInt64_repr`); what follows a number must not
go on with it, and a comma or a brace does not.
-/

namespace StoreLock.Json

/-- Whether a byte ends the value of a member. -/
def Delimits (b : UInt8) : Prop :=
  b = byte ',' ∨ b = byte '}'

/-- A member as it is written. -/
def written (m : String × Bytes) : Bytes :=
  Text.toUtf8 (Marker.quote m.1) ++ byte ':' :: m.2

/-- An object with these members. -/
def object (ms : List (String × Bytes)) : Bytes :=
  byte '{' :: [byte ','].intercalate (ms.map written) ++ [byte '}']

/-- Whether reading these members makes one draft of another. -/
inductive Takes {α : Type} (member : α → String → Bytes → Option (α × Bytes)) :
    List (String × Bytes) → α → α → Prop where
  | nil {d} :
    Takes member [] d d
  | cons {key value ms d d' d''} :
    (∀ b rest, Delimits b → member d key (value ++ b :: rest) = some (d', b :: rest)) →
    Takes member ms d' d'' →
    Takes member ((key, value) :: ms) d d''

variable {α : Type} {member : α → String → Bytes → Option (α × Bytes)} {b : UInt8} {rest : Bytes} {c : Char}
  {s : String} {d d' : α} {ms : List (String × Bytes)}

/-! ## Whole numbers -/

/-- A text of ASCII has its characters for bytes. -/
lemma toUtf8_eq_map (h : ∀ c ∈ s.toList, c.toNat ≤ 127) : Text.toUtf8 s = s.toList.map byte := by
  rw [Text.toUtf8_eq_flatMap, ← List.flatMap_singleton' (s.toList.map byte), List.flatMap_map]
  exact List.flatMap_congr fun c hc => utf8EncodeChar_eq_byte (h c hc)

lemma le_of_isDigit (h : c.isDigit = true) : c.toNat ≤ 127 :=
  Nat.le_trans (Text.isDigit_iff.mp h).2 (by decide)

lemma isDigit_byte (h : c.isDigit = true) : isDigit (byte c) = true := by
  obtain ⟨hlow, hhigh⟩ := Text.isDigit_iff.mp h
  rw [isDigit, Bool.and_eq_true, decide_eq_true_eq, decide_eq_true_eq, UInt8.le_iff_toNat_le,
    UInt8.le_iff_toNat_le, toNat_byte (le_of_isDigit h)]
  exact ⟨hlow, hhigh⟩

lemma isBlank_of_isDigit (h : isDigit b = true) : isBlank b = false := by
  rw [← Bool.not_eq_true]
  intro hb
  simp only [isBlank, Bool.or_eq_true, beq_iff_eq] at hb
  rcases hb with ((rfl | rfl) | rfl) | rfl <;> exact absurd h (by decide)

lemma toUtf8_repr (n : Nat) : Text.toUtf8 n.repr = n.repr.toList.map byte :=
  toUtf8_eq_map fun _ hc => le_of_isDigit (Text.isDigit_of_mem_repr hc)

lemma number_map_byte (n : Nat) : number (n.repr.toList.map byte) = n := by
  rw [number, List.map_map]
  rw [List.map_congr_left (g := id), List.map_id, Text.number_repr]
  intro c hc
  exact ofUInt8_byte (le_of_isDigit (Text.isDigit_of_mem_repr hc))

lemma Delimits.not_isDigit (h : Delimits b) : isDigit b = false := by
  rcases h with rfl | rfl <;> decide

theorem readUInt64_repr (n : UInt64) (hb : Delimits b) (rest : Bytes) :
    readUInt64 (Text.toUtf8 n.toNat.repr ++ b :: rest) = some (n, b :: rest) := by
  have hdigits : ∀ b ∈ n.toNat.repr.toList.map byte, isDigit b = true := by
    rw [List.forall_mem_map]
    exact fun c hc => isDigit_byte (Text.isDigit_of_mem_repr hc)
  have hne : n.toNat.repr.toList.map byte ≠ [] := by
    rw [ne_eq, List.map_eq_nil_iff]
    exact Text.repr_ne_nil n.toNat
  have hblank : skipBlank (n.toNat.repr.toList.map byte ++ b :: rest) =
      n.toNat.repr.toList.map byte ++ b :: rest := by
    obtain ⟨b', bs, he⟩ := List.exists_cons_of_ne_nil hne
    rw [he] at hdigits ⊢
    exact skipBlank_of_not_blank (isBlank_of_isDigit (hdigits b' List.mem_cons_self))
  have htake : (n.toNat.repr.toList.map byte ++ b :: rest).takeWhile isDigit =
      n.toNat.repr.toList.map byte := by
    rw [List.takeWhile_append_of_pos hdigits, List.takeWhile_cons_of_neg (by simp [hb.not_isDigit]),
      List.append_nil]
  have hdrop : (n.toNat.repr.toList.map byte ++ b :: rest).dropWhile isDigit = b :: rest := by
    rw [List.dropWhile_append_of_pos hdigits, List.dropWhile_cons_of_neg (by simp [hb.not_isDigit])]
  have hzero : ¬ ((n.toNat.repr.toList.map byte).head? = some (byte '0') ∧
      (n.toNat.repr.toList.map byte).length ≠ 1) := by
    rintro ⟨hhead, hlength⟩
    rw [List.head?_map, Option.map_eq_some_iff] at hhead
    obtain ⟨c, hc, hbyte⟩ := hhead
    have hdigit := le_of_isDigit (Text.isDigit_of_mem_repr (List.mem_of_mem_head? hc))
    rw [eq_of_byte_eq hdigit (by decide) hbyte] at hc
    rw [Text.eq_zero_of_head_repr hc] at hlength
    exact hlength rfl
  have hend : ¬ (some b = some (byte '.') ∨ some b = some (byte 'e') ∨ some b = some (byte 'E')) := by
    rcases hb with rfl | rfl <;> decide
  rw [toUtf8_repr, readUInt64]
  simp only [hblank, htake, hdrop]
  rw [if_neg (not_or.mpr ⟨hne, hzero⟩), List.head?_cons, if_neg hend, number_map_byte, if_pos n.toNat_lt,
    Nat.toUInt64_eq, UInt64.ofNat_toNat]

/-! ## Members -/

lemma Delimits.isBlank_eq_false (h : Delimits b) : isBlank b = false := by
  rcases h with rfl | rfl <;> decide

lemma readMark_byte (h : isBlank (byte c) = false) : readMark c (byte c :: rest) = some rest := by
  rw [readMark, skipBlank_of_not_blank h]
  exact if_pos rfl

/-- A member is taken up, and the byte behind it tells whether there are more. -/
lemma readMembers_written {m : String × Bytes} (fuel : Nat) (hb : Delimits b)
    (h : member d m.1 (m.2 ++ b :: rest) = some (d', b :: rest)) :
    readMembers member (fuel + 1) d (written m ++ b :: rest) =
      if b = byte ',' then readMembers member fuel d' rest else some (d', rest) := by
  rw [written, List.append_assoc, List.cons_append, readMembers, readString_quote]
  simp only [Option.bind_eq_bind, Option.bind_some, readMark_byte (c := ':') (by decide), h,
    skipBlank_of_not_blank hb.isBlank_eq_false]
  rcases hb with rfl | rfl
  · rfl
  · rfl

lemma readMembers_takes {m : String × Bytes} (h : Takes member (m :: ms) d d') (rest : Bytes) (fuel : Nat)
    (hfuel : ms.length < fuel) :
    readMembers member fuel d ([byte ','].intercalate ((m :: ms).map written) ++ byte '}' :: rest) =
      some (d', rest) := by
  obtain ⟨fuel, rfl⟩ := Nat.exists_eq_succ_of_ne_zero (Nat.ne_zero_of_lt hfuel)
  induction ms generalizing m d fuel with
  | nil =>
    cases h with
    | cons hm h =>
      cases h with
      | nil =>
        rw [List.map_singleton, List.intercalate_singleton,
          readMembers_written fuel (.inr rfl) (hm _ _ (.inr rfl))]
        exact if_neg (by decide)
  | cons m' ms ih =>
    cases h with
    | cons hm h =>
      obtain ⟨fuel, rfl⟩ := Nat.exists_eq_succ_of_ne_zero (n := fuel) (by simp at hfuel; omega)
      rw [List.map_cons, List.map_cons, List.intercalate_cons_cons, List.append_assoc, List.append_assoc,
        List.singleton_append, Nat.succ_eq_add_one, readMembers_written _ (.inl rfl) (hm _ _ (.inl rfl)),
        if_pos rfl]
      exact ih h fuel (Nat.lt_of_succ_lt_succ hfuel)

lemma exists_intercalate_written (m : String × Bytes) (ms : List (String × Bytes)) :
    ∃ bs, [byte ','].intercalate ((m :: ms).map written) = byte '"' :: bs ∧ ms.length ≤ bs.length := by
  induction ms generalizing m with
  | nil =>
    rw [List.map_singleton, List.intercalate_singleton, written, toUtf8_quote]
    exact ⟨_, rfl, Nat.zero_le _⟩
  | cons m' ms ih =>
    obtain ⟨bs, he, hle⟩ := ih m'
    rw [List.map_cons, List.map_cons, List.intercalate_cons_cons, ← List.map_cons, he, written, toUtf8_quote,
      List.cons_append, List.cons_append, List.cons_append]
    refine ⟨_, rfl, ?_⟩
    simp only [List.length_append, List.length_cons]
    omega

/-- An object is read back if its members are. -/
theorem readRecord_object {m : String × Bytes} (keys : List String) (h : Takes member (m :: ms) d d')
    (rest : Bytes) : readRecord keys member d (object (m :: ms) ++ rest) = some (d', rest) := by
  obtain ⟨bs, he, hle⟩ := exists_intercalate_written m ms
  have hopen : skipBlank (object (m :: ms) ++ rest) =
      byte '{' :: ([byte ','].intercalate ((m :: ms).map written) ++ byte '}' :: rest) := by
    rw [object, List.cons_append, List.cons_append, List.append_assoc]
    exact skipBlank_of_not_blank (by decide)
  have hempty : readMark '}' ([byte ','].intercalate ((m :: ms).map written) ++ byte '}' :: rest) = none := by
    rw [he, List.cons_append, readMark, skipBlank_of_not_blank (by decide)]
    rfl
  rw [readRecord, hopen]
  simp only [if_true, hempty]
  apply readMembers_takes h
  rw [he]
  simp only [List.length_append, List.length_cons]
  omega

/-- A text that is an object and nothing else. -/
lemma readDocument_object {m : String × Bytes} (keys : List String) (h : Takes member (m :: ms) d d') :
    readDocument (readRecord keys member d) (object (m :: ms)) = some d' := by
  have hread := readRecord_object keys h []
  rw [List.append_nil] at hread
  rw [readDocument, hread]
  rfl

end StoreLock.Json
