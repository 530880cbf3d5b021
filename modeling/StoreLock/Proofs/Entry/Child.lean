import StoreLock.Proofs.Entry.Codec

/-!
# Derived owners

The owner of a lock that a provider makes is written with characters that may stand in an id, but nobody
looks at its length. It is an id if and only if the token has left room for a dash and the number of the
lock (`OwnerId.accepts_child_iff`), and otherwise no name that is written with it reads as an entry
(`Entry.read_child_iff`).
-/

namespace StoreLock

namespace Text

/-- A text of ASCII has as many bytes as characters. -/
lemma utf8ByteSize_eq_length {s : String} (h : ∀ c ∈ s.toList, c.val.toNat ≤ 127) :
    s.utf8ByteSize = s.length := by
  rw [← length_toUtf8, toUtf8_eq_flatMap, ← String.length_toList]
  generalize s.toList = cs at h
  induction cs with
  | nil => rfl
  | cons c cs ih =>
    rw [List.forall_mem_cons] at h
    rw [List.flatMap_cons, utf8EncodeChar_of_le h.1, List.length_append, ih h.2]
    exact Nat.add_comm 1 cs.length

end Text

namespace OwnerId

variable {token : OwnerId} {index : UInt64}

/-- Whether a token leaves room for a dash and the digits of the number of a lock. -/
def HasRoom (token : OwnerId) (index : UInt64) : Prop :=
  token.text.utf8ByteSize + 1 + index.toNat.repr.length ≤ maxLength

instance : Decidable (token.HasRoom index) :=
  inferInstanceAs (Decidable (_ ≤ _))

lemma utf8ByteSize_repr (n : Nat) : n.repr.utf8ByteSize = n.repr.length := by
  apply Text.utf8ByteSize_eq_length
  intro c hc
  exact (Text.isDigit_iff.mp (Text.isDigit_of_mem_repr hc)).2.trans (by decide)

lemma utf8ByteSize_child : (token.child index).text.utf8ByteSize =
    token.text.utf8ByteSize + 1 + index.toNat.repr.length := by
  rw [child, String.utf8ByteSize_append, String.utf8ByteSize_append, utf8ByteSize_repr]
  rfl

/-- What is derived from an id is written with characters that may stand in one. -/
lemma allows_of_mem_child (ht : accepts token.text = true) {c : Char}
    (hc : c ∈ (token.child index).text.toList) : allows c = true := by
  simp only [accepts, Bool.and_eq_true, List.all_eq_true] at ht
  rw [child, String.toList_append, String.toList_append, List.mem_append, List.mem_append] at hc
  rcases hc with (htoken | hdash) | hdigit
  · exact ht.2 c htoken
  · cases List.mem_singleton.mp hdash
    decide
  · simp [allows, Char.isAlphanum, Text.isDigit_of_mem_repr hdigit]

theorem accepts_child_iff (ht : accepts token.text = true) :
    accepts (token.child index).text = true ↔ token.HasRoom index := by
  have hempty : (token.child index).text.isEmpty = false := by
    rw [String.isEmpty, beq_eq_false_iff_ne]
    show (token.child index).text.utf8ByteSize ≠ 0
    rw [utf8ByteSize_child]
    omega
  have hall : (token.child index).text.toList.all allows = true :=
    List.all_eq_true.mpr fun _ => allows_of_mem_child ht
  rw [accepts, hempty, hall, HasRoom, ← utf8ByteSize_child]
  simp

lemma separator_not_mem_child (ht : accepts token.text = true) :
    Entry.separator ∉ (token.child index).text.toList := by
  intro hm
  exact absurd (allows_of_mem_child ht hm) (by decide)

/-- The digits of a number hold no dash, so what is derived from a token is cut at its last dash: it tells
the token and the number, whatever dashes and digits the token ends with. -/
theorem child_inj {token' : OwnerId} {index' : UInt64} :
    token.child index = token'.child index' ↔ token = token' ∧ index = index' := by
  have cut (token : OwnerId) (index : UInt64) :
      Text.splitLast '-' (token.child index).text.toList =
        some (token.text.toList, index.toNat.repr.toList) := by
    have hdash : '-' ∉ index.toNat.repr.toList := by
      intro hm
      exact absurd (Text.isDigit_of_mem_repr hm) (by decide)
    have hlist : (token.child index).text.toList =
        token.text.toList ++ '-' :: index.toNat.repr.toList := by
      simp [child, String.toList_append]
    rw [hlist, Text.splitLast_append _ hdash]
  constructor
  · intro h
    have hcut := cut token index
    rw [h, cut token' index'] at hcut
    obtain ⟨htoken, hindex⟩ := Prod.mk.inj (Option.some.inj hcut)
    constructor
    · exact (congrArg OwnerId.mk (String.toList_inj.mp htoken)).symm
    · apply UInt64.toNat_inj.mp
      exact (Nat.repr_inj.mp (String.toList_inj.mp hindex)).symm
  · intro h
    rw [h.1, h.2]

end OwnerId

namespace Entry

variable {e e' : Entry} {lockPrefix : String} {token : OwnerId} {index sequence : UInt64}

/-- Entries of one name are one, as long as their owners are written without the separator. -/
lemma eq_of_name_eq (hs : separator ∉ e.owner.text.toList) (hs' : separator ∉ e'.owner.text.toList)
    (h : e.name = e'.name) : e = e' := by
  have hcut := Text.splitLast_append (e.lockPrefix.toList ++ separator ::
    Text.padded sequenceWidth e.sequence.toNat) hs
  rw [← toList_name, h, toList_name, Text.splitLast_append _ hs'] at hcut
  obtain ⟨hrest, howner⟩ := Prod.mk.inj (Option.some.inj hcut)
  have hcut' := Text.splitLast_append e.lockPrefix.toList
    (separator_not_mem_padded sequenceWidth e.sequence.toNat)
  rw [← hrest, Text.splitLast_append _ (separator_not_mem_padded _ _)] at hcut'
  obtain ⟨hp, hdigits⟩ := Prod.mk.inj (Option.some.inj hcut')
  rw [Text.padded_inj e'.sequence_lt e.sequence_lt, UInt64.toNat_inj] at hdigits
  show (⟨e.lockPrefix, e.sequence, ⟨e.owner.text⟩⟩ : Entry) =
    ⟨e'.lockPrefix, e'.sequence, ⟨e'.owner.text⟩⟩
  rw [String.toList_inj.mp hp, hdigits, String.toList_inj.mp howner]

/-- A name reads back only if its owner is an id, as long as that is written without the separator. -/
lemma accepts_of_read {own : Entry} (hs : separator ∉ own.owner.text.toList)
    (h : read own.name = .ok e) : OwnerId.accepts own.owner.text = true := by
  obtain ⟨hname, hproper⟩ := name_of_read h
  have hlast := Text.splitLast_append (own.lockPrefix.toList ++ separator ::
    Text.padded sequenceWidth own.sequence.toNat) hs
  rw [← toList_name, ← hname, toList_name,
    Text.splitLast_append _ (OwnerId.separator_not_mem hproper.owner)] at hlast
  have howner : e.owner.text = own.owner.text := by
    apply String.toList_inj.mp
    exact (Prod.mk.inj (Option.some.inj hlast)).2
  rw [← howner]
  exact hproper.owner

/-- The names that are written with a derived owner read back if and only if the token has left room, and
otherwise they read as nothing. -/
theorem read_child_iff (ht : OwnerId.accepts token.text = true) (hp : lockPrefix ≠ "") :
    (read (name ⟨lockPrefix, sequence, token.child index⟩) =
        .ok ⟨lockPrefix, sequence, token.child index⟩ ↔ token.HasRoom index) ∧
      (¬ token.HasRoom index → ∀ e, read (name ⟨lockPrefix, sequence, token.child index⟩) ≠ .ok e) := by
  have hs : separator ∉ (token.child index).text.toList := OwnerId.separator_not_mem_child ht
  constructor
  · rw [← OwnerId.accepts_child_iff ht]
    constructor
    · exact accepts_of_read hs
    · intro ha
      exact read_name ⟨hp, ha⟩
  · intro hnot e he
    apply hnot
    rw [← OwnerId.accepts_child_iff ht]
    exact accepts_of_read hs he

end Entry

end StoreLock
