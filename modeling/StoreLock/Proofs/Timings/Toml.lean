import Mathlib
import StoreLock.Timings.Toml

/-!
# Lines of a TOML document

A line with a bare key and a string in double quotes is read as that member (`readLine_line`), provided
that the string has only characters that stand for themselves. A document of such lines takes up one member
after another (`readLines_lines`).
-/

namespace StoreLock.Timings

/-- Takes up members, one after another. -/
def Draft.putAll (d : Draft) (ms : List (String × String)) : Option Draft :=
  ms.foldlM (fun d m => d.put m.1 m.2) d

namespace Toml

/-- Whether a character stands for itself in a string in double quotes. -/
structure IsVerbatim (c : Char) : Prop where
  plain : isPlain c = true
  ne_quote : c ≠ '"'
  ne_backslash : c ≠ '\\'

/-- A line with a bare key and a quoted value. -/
def line (m : String × String) : List Char :=
  m.1.toList ++ ' ' :: '=' :: ' ' :: '"' :: (m.2.toList ++ ['"', '\n'])

/-- Whether a member is written in a line that can be read. -/
structure IsLine (m : String × String) : Prop where
  bare : ∀ c ∈ m.1.toList, isBareKey c = true
  ne_nil : m.1.toList ≠ []
  verbatim : ∀ c ∈ m.2.toList, IsVerbatim c

variable {c : Char} {cs rest : List Char} {d : Draft} {m : String × String} {ms : List (String × String)}
  {fuel : Nat}

lemma readBasic_append (hcs : ∀ c ∈ cs, IsVerbatim c) (hfuel : cs.length ≤ fuel) :
    readBasic (fuel + 1) (cs ++ '"' :: rest) = some (cs, rest) := by
  induction cs generalizing fuel with
  | nil => rfl
  | cons c cs ih =>
    obtain ⟨hc, hcs⟩ := List.forall_mem_cons.mp hcs
    cases fuel with
    | zero => cases hfuel
    | succ fuel =>
      rw [List.cons_append, readBasic, if_neg hc.ne_quote, if_neg hc.ne_backslash, if_pos hc.plain,
        ih hcs (Nat.le_of_succ_le_succ hfuel)]
      rfl

/-- A string in double quotes is read up to the quote behind it, and is not taken for one of many lines. -/
lemma readString_quoted (hcs : ∀ c ∈ cs, IsVerbatim c) :
    readString ('"' :: (cs ++ '"' :: '\n' :: rest)) = some (cs, '\n' :: rest) := by
  have hbasic : readBasic ('"' :: (cs ++ '"' :: '\n' :: rest)).length (cs ++ '"' :: '\n' :: rest) =
      some (cs, '\n' :: rest) := by
    apply readBasic_append hcs
    rw [List.length_append]
    exact Nat.le_add_right _ _
  cases cs with
  | nil => rfl
  | cons c cs =>
    have hc := (hcs c List.mem_cons_self).ne_quote
    rw [readString]
    · exact hbasic
    · intro rest' he
      exact hc (List.cons.inj (List.cons.inj he).2).1
    · intro rest' he
      cases (List.cons.inj he).1

lemma ne_of_isBareKey {c' : Char} (h : isBareKey c = true) (h' : isBareKey c' = false) : c ≠ c' := by
  rintro rfl
  exact Bool.false_ne_true (h'.symm.trans h)

lemma cons_ne_of_isBareKey {c' : Char} {cs' : List Char} (h : isBareKey c = true)
    (h' : isBareKey c' = false) : c :: cs ≠ c' :: cs' := by
  intro he
  exact ne_of_isBareKey h h' (List.cons.inj he).1

lemma isBlank_of_isBareKey (h : isBareKey c = true) : isBlank c = false := by
  rw [isBlank, Bool.or_eq_false_iff, beq_eq_false_iff_ne, beq_eq_false_iff_ne]
  exact ⟨ne_of_isBareKey h (by decide), ne_of_isBareKey h (by decide)⟩

/-- A line that starts with a bare key is not done. -/
lemma readLineRest_of_isBareKey (h : isBareKey c = true) : readLineRest (c :: cs) = none := by
  have hend : lineEnd? (c :: cs) = none := by
    rw [lineEnd?]
    · exact fun _ => cons_ne_of_isBareKey h (by decide)
    · exact fun _ => cons_ne_of_isBareKey h (by decide)
  rw [readLineRest, List.dropWhile_cons_of_neg (by simp [isBlank_of_isBareKey h])]
  split
  case h_1 he =>
    split at he
    case h_1 he' => exact absurd he' (cons_ne_of_isBareKey h (by decide))
    case h_2 => cases he
  case h_2 he =>
    split
    case h_1 he' => exact absurd he' (cons_ne_of_isBareKey h (by decide))
    case h_2 => exact hend

lemma readKey_bare (hbare : ∀ c ∈ cs, isBareKey c = true) (hne : cs ≠ []) :
    readKey (cs ++ ' ' :: rest) = some (cs, ' ' :: rest) := by
  have hshort : readShortString (cs ++ ' ' :: rest) = none := by
    obtain ⟨c, cs, rfl⟩ := List.exists_cons_of_ne_nil hne
    have hc := hbare c List.mem_cons_self
    rw [List.cons_append, readShortString]
    · exact fun _ => cons_ne_of_isBareKey hc (by decide)
    · exact fun _ => cons_ne_of_isBareKey hc (by decide)
  rw [readKey, hshort, List.takeWhile_append_of_pos hbare, List.dropWhile_append_of_pos hbare,
    List.takeWhile_cons_of_neg (by decide), List.dropWhile_cons_of_neg (by decide), List.append_nil]
  exact if_neg hne

lemma exists_line (hm : IsLine m) (rest : List Char) :
    ∃ c cs, line m ++ rest = c :: cs ∧ isBareKey c = true := by
  obtain ⟨c, cs, he⟩ := List.exists_cons_of_ne_nil hm.ne_nil
  refine ⟨c, _, by rw [line, he]; rfl, hm.bare c ?_⟩
  rw [he]
  exact List.mem_cons_self

/-- A line is read as its member. -/
theorem readLine_line (hm : IsLine m) (d : Draft) (rest : List Char) :
    readLine d (line m ++ rest) = (d.put m.1 m.2).map fun d => (d, rest) := by
  have hline : line m ++ rest =
      m.1.toList ++ ' ' :: '=' :: ' ' :: '"' :: (m.2.toList ++ '"' :: '\n' :: rest) := by
    simp [line]
  have hfirst : readLineRest (line m ++ rest) = none ∧
      (line m ++ rest).dropWhile isBlank = line m ++ rest := by
    obtain ⟨c, cs, he, hc⟩ := exists_line hm rest
    rw [he, List.dropWhile_cons_of_neg (by simp [isBlank_of_isBareKey hc])]
    exact ⟨readLineRest_of_isBareKey hc, rfl⟩
  have hequals (cs : List Char) : (' ' :: '=' :: cs).dropWhile isBlank = '=' :: cs := by
    rfl
  have hquote (cs : List Char) : (' ' :: '"' :: cs).dropWhile isBlank = '"' :: cs := by
    rfl
  have hend : readLineRest ('\n' :: rest) = some rest := by
    rfl
  rw [readLine, hfirst.1, hfirst.2, hline]
  simp only [readKey_bare hm.bare hm.ne_nil, hequals, hquote, readString_quoted hm.verbatim,
    String.ofList_toList, Option.bind_eq_bind, Option.bind_some, hend, Option.map_eq_bind, Function.comp_def]

/-- Lines are read as their members, one after another. -/
theorem readLines_lines (hms : ∀ m ∈ ms, IsLine m) (d : Draft) (hfuel : ms.length ≤ fuel) :
    readLines (fuel + 1) d (ms.flatMap line) = d.putAll ms := by
  induction ms generalizing d fuel with
  | nil => rfl
  | cons m ms ih =>
    obtain ⟨hm, hms⟩ := List.forall_mem_cons.mp hms
    cases fuel with
    | zero => cases hfuel
    | succ fuel =>
      obtain ⟨c, cs, he, -⟩ := exists_line hm (ms.flatMap line)
      rw [List.flatMap_cons, readLines, readLine_line hm, Draft.putAll, List.foldlM_cons]
      · cases d.put m.1 m.2 with
        | none => rfl
        | some d' => exact ih hms d' (Nat.le_of_succ_le_succ hfuel)
      · rw [he]
        exact List.cons_ne_nil c cs

end Toml

end StoreLock.Timings
