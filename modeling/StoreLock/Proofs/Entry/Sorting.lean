import StoreLock.Proofs.Entry.NameOrder

/-!
# Sorting names

Comparing the names of two entries of one prefix, byte by byte, has the same outcome as comparing
their sequences and then the bytes of their owners, and as comparing the entries
(`Entry.compareBytes_name`). So a queue may be sorted by its entries or by its names.

All of these comparisons give the opposite answer the other way round, so it is enough that they agree
on which of two comes strictly first (`compare_congr`).
-/

namespace StoreLock

namespace Text

/-- How the bytes of two texts compare: at the first byte that differs, and a text that ends there
comes first. -/
def compareBytes (s t : String) : Ordering :=
  compare (toUtf8 s) (toUtf8 t)

lemma compare_bytes_eq_lt {u v : List UInt8} : compare u v = .lt ↔ u < v := by
  induction u generalizing v with
  | nil =>
    cases v with
    | nil => simp
    | cons b v => simp
  | cons a u ih =>
    cases v with
    | nil => simp
    | cons b v =>
      rw [List.compare_cons_cons, Ordering.then_eq_lt, Std.compare_eq_lt,
        Std.LawfulEqCmp.compare_eq_iff_eq, ih, List.cons_lt_cons_iff]

end Text

/-- Two ways of comparing agree if they agree on what comes strictly first. -/
lemma compare_congr {α β : Type} [Ord α] [Ord β] [Std.OrientedOrd α] [Std.OrientedOrd β] {a b : α}
    {c d : β} (h : compare a b = .lt ↔ compare c d = .lt)
    (h' : compare b a = .lt ↔ compare d c = .lt) : compare a b = compare c d := by
  rw [Std.OrientedOrd.eq_swap (a := b), Std.OrientedOrd.eq_swap (a := d), Ordering.swap_eq_lt,
    Ordering.swap_eq_lt] at h'
  cases hab : compare a b with
  | lt => exact (h.mp hab).symm
  | gt => exact (h'.mp hab).symm
  | eq =>
    cases hcd : compare c d with
    | lt => exact absurd (h.mpr hcd) (by simp [hab])
    | gt => exact absurd (h'.mpr hcd) (by simp [hab])
    | eq => rfl

namespace Text

/-- The bytes of two texts compare as the texts do. -/
lemma compareBytes_eq_compare (s t : String) : compareBytes s t = compare s t := by
  have agree (s t : String) : compare (toUtf8 s) (toUtf8 t) = .lt ↔ compare s t = .lt := by
    rw [compare_bytes_eq_lt, toUtf8_lt_toUtf8_iff, compare_eq_lt, String.lt_iff_toList_lt]
  exact compare_congr (agree s t) (agree t s)

end Text

namespace Entry

variable {a b : Entry}

lemma compareBytes_name (h : a.lockPrefix = b.lockPrefix) :
    Text.compareBytes a.name b.name = compare a b := by
  rw [Text.compareBytes]
  apply compare_congr
  · rw [Text.compare_bytes_eq_lt, toUtf8_name_lt_iff h]
  · rw [Text.compare_bytes_eq_lt, toUtf8_name_lt_iff h.symm]

/-- Entries of one prefix compare by their sequences and then by the bytes of their owners. -/
lemma compare_of_lockPrefix_eq (h : a.lockPrefix = b.lockPrefix) : compare a b =
    (compare a.sequence b.sequence).then (Text.compareBytes a.owner.text b.owner.text) := by
  have hp : compare a.lockPrefix b.lockPrefix = .eq := by
    rw [h]
    exact Std.ReflCmp.compare_self
  rw [compare_def, hp, Text.compareBytes_eq_compare]
  rfl

/-- The names of a queue stand in the order of its entries: their bytes compare as the sequences and
then the owners do, and as the entries do. So sorting the entries and then naming them gives the same
list as naming them and sorting the names by their bytes. -/
theorem names_in_order (lockPrefix : String) :
    (∀ (s t : UInt64) (a b : OwnerId),
      Text.compareBytes (name ⟨lockPrefix, s, a⟩) (name ⟨lockPrefix, t, b⟩) =
          (compare s t).then (Text.compareBytes a.text b.text) ∧
        Text.compareBytes (name ⟨lockPrefix, s, a⟩) (name ⟨lockPrefix, t, b⟩) =
          compare (⟨lockPrefix, s, a⟩ : Entry) ⟨lockPrefix, t, b⟩) ∧
    ∀ entries : List Entry, (∀ e ∈ entries, e.lockPrefix = lockPrefix) →
      (sort entries).map name =
        (entries.map name).mergeSort fun n m => (Text.compareBytes n m).isLE := by
  constructor
  · intro s t a b
    have hname : Text.compareBytes (name ⟨lockPrefix, s, a⟩) (name ⟨lockPrefix, t, b⟩) =
        compare (⟨lockPrefix, s, a⟩ : Entry) ⟨lockPrefix, t, b⟩ :=
      compareBytes_name rfl
    refine ⟨?_, hname⟩
    rw [hname]
    exact compare_of_lockPrefix_eq rfl
  · intro entries h
    apply List.map_mergeSort
    intro a ha b hb
    rw [compareBytes_name ((h a ha).trans (h b hb).symm)]
    rfl

/-- Sequences of one to twenty digits, and an owner that goes on where another ends. -/
theorem names_in_order_of_five : ∃ entries : List Entry,
    entries = [⟨"p", 10, ⟨"b-1"⟩⟩, ⟨"p", 18446744073709551615, ⟨"a"⟩⟩, ⟨"p", 9, ⟨"z"⟩⟩,
      ⟨"p", 10, ⟨"b"⟩⟩, ⟨"p", 100, ⟨"A"⟩⟩] ∧
    (∀ e ∈ entries, e.lockPrefix = "p") ∧
    (sort entries).map name =
      (entries.map name).mergeSort fun n m => (Text.compareBytes n m).isLE := by
  refine ⟨_, rfl, ?_, ?_⟩
  · decide
  · exact (names_in_order "p").2 _ (by decide)

end Entry

end StoreLock
