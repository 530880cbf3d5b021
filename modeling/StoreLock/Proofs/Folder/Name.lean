import StoreLock.Proofs.Text.Split
import StoreLock.Store.ObjectName

/-!
# Names and their segments

A text is the name of an object if and only if all its segments are in order
(`ObjectName.segments_eq_ok_iff`), and then it is spelled by them. The names behind the name of a folder
are those whose segments go on from the segments of the folder.
-/

namespace StoreLock.ObjectName

/-- What a segment has to be for a file of an object. -/
structure Proper (segment : String) : Prop where
  isObject : isObjectSegment segment = true
  short : segment.utf8ByteSize ≤ maxSegment
  allowed : (segment.toList.any fun c => c == '\\' || c == '\x00') = false

/-- The name with these segments. -/
def spell (segments : List String) : String :=
  String.ofList ([separator].intercalate (segments.map String.toList))

variable {name segment : String} {segs more : List String} {fault : Fault}

lemma segmentFault?_eq_none : segmentFault? name segment = none ↔ Proper segment := by
  rw [segmentFault?]
  split_ifs with hempty hhidden hlong hforbidden
  · simp only [false_iff]
    intro h
    have := h.isObject
    simp [isObjectSegment, hempty] at this
  · simp only [false_iff]
    intro h
    have := h.isObject
    simp [isObjectSegment, hhidden] at this
  · simp only [false_iff]
    intro h
    exact absurd h.short (not_le.mpr hlong)
  · simp only [false_iff]
    intro h
    rw [h.allowed] at hforbidden
    cases hforbidden
  · simp only [true_iff]
    refine ⟨?_, not_lt.mp hlong, Bool.eq_false_of_not_eq_true hforbidden⟩
    simp [isObjectSegment, hempty, hhidden]

/-- A name has its pieces as segments if these are in order, and none otherwise. -/
theorem segments_eq_ok_iff :
    segments name = .ok segs ↔ segs = pieces name ∧ ∀ segment ∈ segs, Proper segment := by
  rw [segments]
  split
  case isTrue h =>
    -- The one piece of the empty name is empty.
    have hname : name = "" := by simpa using h
    subst hname
    simp only [reduceCtorEq, false_iff, not_and]
    intro hs hp
    have := (hp "" (by rw [hs]; decide)).isObject
    simp [isObjectSegment] at this
  case isFalse =>
    split
    case h_1 fault hf =>
      obtain ⟨segment, hs, hf⟩ := List.exists_of_findSome?_eq_some hf
      simp only [reduceCtorEq, false_iff, not_and]
      intro he hp
      rw [segmentFault?_eq_none.mpr (hp segment (he ▸ hs))] at hf
      cases hf
    case h_2 hf =>
      rw [List.findSome?_eq_none_iff] at hf
      simp only [Except.ok.injEq, segmentFault?_eq_none] at hf ⊢
      constructor
      · intro h
        subst h
        exact ⟨rfl, hf⟩
      · intro h
        exact h.1.symm

lemma spell_pieces : spell (pieces name) = name := by
  rw [spell, pieces, List.map_map]
  simp only [Function.comp_def, String.toList_ofList, List.map_id', Text.intercalate_splitOn,
    String.ofList_toList]

lemma pieces_ne_nil : pieces name ≠ [] := by
  rw [pieces, ne_eq, List.map_eq_nil_iff]
  exact Text.splitOn_ne_nil

lemma segments_ne_nil (h : segments name = .ok segs) : segs ≠ [] := by
  rw [(segments_eq_ok_iff.mp h).1]
  exact pieces_ne_nil

/-- Different names have different segments. -/
lemma segments_inj {other : String} (h : segments name = .ok segs) (h' : segments other = .ok segs) :
    name = other := by
  have hname : spell (pieces name) = name := spell_pieces
  rw [← hname, ← (segments_eq_ok_iff.mp h).1, (segments_eq_ok_iff.mp h').1, spell_pieces]

lemma separator_not_mem_of_mem_pieces (h : segment ∈ pieces name) : separator ∉ segment.toList := by
  obtain ⟨piece, hp, rfl⟩ := List.mem_map.mp h
  rw [String.toList_ofList]
  exact Text.not_mem_of_mem_splitOn hp

lemma pieces_spell (h : ∀ segment ∈ segs, separator ∉ segment.toList) (hne : segs ≠ []) :
    pieces (spell segs) = segs := by
  rw [pieces, spell, String.toList_ofList, Text.splitOn_intercalate, List.map_map]
  · simp only [Function.comp_def, String.ofList_toList, List.map_id']
  · simpa using h
  · simpa using hne

/-- Segments in order are those of the name that they spell. -/
lemma segments_spell (h : ∀ segment ∈ segs, Proper segment ∧ separator ∉ segment.toList)
    (hne : segs ≠ []) : segments (spell segs) = .ok segs :=
  segments_eq_ok_iff.mpr
    ⟨(pieces_spell (fun segment hs => (h segment hs).2) hne).symm, fun segment hs => (h segment hs).1⟩

@[simp] lemma spell_singleton : spell [segment] = segment := by
  simp [spell, List.intercalate]

/-- What goes on behind a folder is spelled by the segments of both. -/
lemma spell_append (hs : segs ≠ []) (hm : more ≠ []) :
    spell (segs ++ more) = spell segs ++ separator.toString ++ spell more := by
  have hlist : [separator].intercalate (segs.map String.toList ++ more.map String.toList) = _ :=
    Text.intercalate_append (by simpa using hs) (by simpa using hm)
  apply String.toList_injective
  simpa [spell] using hlist

lemma spell_cons (hne : more ≠ []) :
    spell (segment :: more) = segment ++ separator.toString ++ spell more := by
  rw [← List.singleton_append, spell_append (List.cons_ne_nil _ _) hne, spell_singleton]

/-- A character that is no separator is in a name if it is in one of the segments. -/
lemma exists_mem_pieces {c : Char} (hc : c ≠ separator) :
    (∃ s ∈ pieces name, c ∈ s.toList) ↔ c ∈ name.toList := by
  rw [← Text.exists_mem_splitOn hc, pieces]
  simp

/-- Short segments of objects that hold no zero make up a name unless a backslash is in it. -/
lemma segments_eq_of_entries
    (h : ∀ s ∈ pieces name, isObjectSegment s = true ∧ s.utf8ByteSize ≤ maxSegment ∧ '\x00' ∉ s.toList) :
    segments name = if '\\' ∈ name.toList then .error (.forbiddenCharacter name) else .ok (pieces name) := by
  have hfault : ∀ s ∈ pieces name, segmentFault? name s =
      if '\\' ∈ s.toList then some (.forbiddenCharacter name) else none := by
    intro s hs
    obtain ⟨hobject, hshort, hnul⟩ := h s hs
    rw [isObjectSegment, Bool.and_eq_true, Bool.not_eq_true', Bool.not_eq_true'] at hobject
    rw [segmentFault?, hobject.1, hobject.2, if_neg Bool.false_ne_true, if_neg Bool.false_ne_true,
      if_neg (not_lt.mpr hshort)]
    congr 1
    simp only [List.any_eq_true, Bool.or_eq_true, beq_iff_eq, eq_iff_iff]
    grind
  have hempty : name.isEmpty = false := by
    rw [← Bool.not_eq_true, String.isEmpty_iff]
    rintro rfl
    have hobject := (h "" (by decide)).1
    cases hobject
  rw [segments, hempty, if_neg Bool.false_ne_true]
  by_cases hslash : '\\' ∈ name.toList
  · obtain ⟨s, hs, hmem⟩ := (exists_mem_pieces (by decide)).mpr hslash
    rw [if_pos hslash]
    cases hfind : (pieces name).findSome? (segmentFault? name) with
    | none =>
      have hnone := List.findSome?_eq_none_iff.mp hfind s hs
      rw [hfault s hs, if_pos hmem] at hnone
      cases hnone
    | some fault =>
      obtain ⟨t, ht, hfound⟩ := List.exists_of_findSome?_eq_some hfind
      rw [hfault t ht] at hfound
      split_ifs at hfound
      cases hfound
      rfl
  · rw [if_neg hslash]
    have hfind : (pieces name).findSome? (segmentFault? name) = none := by
      rw [List.findSome?_eq_none_iff]
      intro s hs
      rw [hfault s hs, if_neg]
      intro hmem
      exact hslash ((exists_mem_pieces (by decide)).mp ⟨s, hs, hmem⟩)
    rw [hfind]

/-- The pieces of a name behind a folder go on from those of the folder. -/
lemma pieces_append {folder rest : List Char} :
    pieces (String.ofList (folder ++ separator :: rest)) =
      pieces (String.ofList folder) ++ pieces (String.ofList rest) := by
  simp only [pieces, String.toList_ofList, Text.splitOn_append, List.map_append]

/-! ## Hidden segments -/

lemma utf8ByteSize_staged (s : String) : (staged s).utf8ByteSize = s.utf8ByteSize + 5 := by
  have hpoint : ".".utf8ByteSize = 1 := rfl
  have htail : ".tmp".utf8ByteSize = 4 := rfl
  rw [staged, String.utf8ByteSize_append, String.utf8ByteSize_append, hpoint, htail]
  lia

lemma ne_staged {t : String} (h : t.utf8ByteSize < 5) : staged segment ≠ t := by
  rintro rfl
  rw [utf8ByteSize_staged] at h
  lia

lemma staged_inj {s t : String} (h : staged s = staged t) : s = t := by
  have hlist := congrArg String.toList h
  simp only [staged, String.toList_append, List.append_cancel_left_eq,
    List.append_cancel_right_eq] at hlist
  exact String.toList_injective hlist

/-- Only a point and the letters of the ending are added to a segment. -/
lemma mem_staged {c : Char} (hc : c ∉ ".tmp".toList) : c ∈ (staged segment).toList ↔ c ∈ segment.toList := by
  have hpoint : c ∉ ".".toList := by
    intro hmem
    exact hc (List.mem_of_mem_head? (by simpa [eq_comm] using hmem))
  rw [staged, String.toList_append, String.toList_append, List.mem_append, List.mem_append]
  simp only [hpoint, hc, false_or, or_false]

/-- The segment of a hidden file belongs to no object. -/
lemma isObjectSegment_staged (s : String) : isObjectSegment (staged s) = false := by
  simp [isObjectSegment, isHidden, staged]

end StoreLock.ObjectName
