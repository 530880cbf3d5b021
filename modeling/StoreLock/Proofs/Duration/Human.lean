import StoreLock.Proofs.Duration.Spans

/-!
# Durations read back

Every length whose seconds fit in 64 bits is read back from what it is written as (`ofHuman?_human`). A span
is read as what it is spelled from (`readSpans_span`), and the reader adds one after another to a total
(`readSpans_spell`). It stays within its bounds: no total on the way is larger than the length itself, and
spans of units below a second make less than a second.
-/

namespace StoreLock.Duration

/-- What may stand behind a span: nothing, or a blank with more. -/
inductive Ends : List Char → Prop where
  | nil :
    Ends []
  | blank {rest} :
    Ends (' ' :: rest)

variable {u : TimeUnit} {d total : Duration} {n fuel : Nat} {c : Char} {cs rest : List Char} {p : Span}
  {ps : List Span}

/-! ## Reading a span -/

lemma isBlank_of_isAlphanum (h : c.isAlphanum = true) : Text.isBlank c = false := by
  rw [Char.isAlphanum, Bool.or_eq_true, isAlpha_iff, Text.isDigit_iff] at h
  rw [← Bool.not_eq_true]
  intro hblank
  simp only [Text.isBlank, Text.inRanges, List.any_cons, List.any_nil, Bool.or_eq_true, Bool.and_eq_true,
    decide_eq_true_eq, Bool.false_eq_true, or_false] at hblank
  omega

lemma isAlphanum_of_isAlpha (h : c.isAlpha = true) : c.isAlphanum = true := by
  rw [Char.isAlphanum, h, Bool.true_or]

lemma isBlank_of_isDigit (h : c.isDigit = true) : Text.isBlank c = false :=
  isBlank_of_isAlphanum (by rw [Char.isAlphanum, h, Bool.or_true])

lemma isUnitChar_of_isAlpha (h : c.isAlpha = true) : isUnitChar c = true := by
  rw [isUnitChar, h, Bool.true_or]

lemma isDigit_of_isAlpha (h : c.isAlpha = true) : c.isDigit = false := by
  rw [← Bool.not_eq_true, Text.isDigit_iff]
  rw [isAlpha_iff] at h
  omega

lemma within64_of_lt (h : n < UInt64.size) : within64 n = some n :=
  if_pos h

-- Stated by hand, since Lean does not get past the bound in `within64` when it makes this equation.
lemma readWhole_cons (n : Nat) (c : Char) (rest : List Char) : readWhole n (c :: rest) =
    if c.isDigit then
      match within64 (10 * n + Text.digitValue c) with
      | some n => readWhole n rest
      | none => none
    else if Text.isBlank c then readWhole n rest
    else if isUnitChar c || c == '.' then some (n, c :: rest)
    else none := by
  rfl

lemma readWhole_append (hcs : ∀ c ∈ cs, c.isDigit = true)
    (h : cs.foldl (fun n c => 10 * n + Text.digitValue c) n < UInt64.size) (rest : List Char) :
    readWhole n (cs ++ rest) =
      readWhole (cs.foldl (fun n c => 10 * n + Text.digitValue c) n) rest := by
  induction cs generalizing n with
  | nil => rfl
  | cons c cs ih =>
    obtain ⟨hc, hcs⟩ := List.forall_mem_cons.mp hcs
    rw [List.foldl_cons] at h ⊢
    have hlt := Nat.lt_of_le_of_lt (Text.le_foldl_digits cs (10 * n + Text.digitValue c)) h
    rw [List.cons_append, readWhole_cons, if_pos hc, within64_of_lt hlt]
    exact ih hcs h

/-- The digits of a number are read up to the unit behind them. -/
lemma readWhole_repr (hn : n < UInt64.size) (hcs : ∀ c ∈ cs, c.isAlpha = true) (hne : cs ≠ [])
    (rest : List Char) :
    ∃ c cs', n.repr.toList = c :: cs' ∧ c.isDigit = true ∧
      readWhole (Text.digitValue c) (cs' ++ (cs ++ rest)) = some (n, cs ++ rest) := by
  obtain ⟨c, cs', he⟩ := List.exists_cons_of_ne_nil (Text.repr_ne_nil n)
  have hdigits (c : Char) := Text.isDigit_of_mem_repr (c := c) (n := n)
  have hnumber := Text.number_repr n
  rw [he] at hnumber hdigits
  obtain ⟨hc, hcs'⟩ := List.forall_mem_cons.mp hdigits
  rw [Text.number, List.foldl_cons, Nat.mul_zero, Nat.zero_add] at hnumber
  obtain ⟨a, as, rfl⟩ := List.exists_cons_of_ne_nil hne
  have ha := hcs a List.mem_cons_self
  refine ⟨c, cs', he, hc, ?_⟩
  rw [← hnumber] at hn
  rw [readWhole_append hcs' hn, hnumber, List.cons_append, readWhole_cons,
    if_neg (by simp [isDigit_of_isAlpha ha]),
    if_neg (by simp [isBlank_of_isAlphanum (isAlphanum_of_isAlpha ha)]),
    if_pos (by simp [isUnitChar_of_isAlpha ha])]

lemma readUnit_append (hcs : ∀ c ∈ cs, c.isAlpha = true) (hrest : Ends rest) :
    readUnit (cs ++ rest) = some (cs, rest) := by
  induction cs with
  | nil =>
    cases hrest with
    | nil => rfl
    | blank =>
      rw [List.nil_append, readUnit, if_neg (by decide)]
      exact if_pos (by decide)
  | cons c cs ih =>
    obtain ⟨hc, hcs⟩ := List.forall_mem_cons.mp hcs
    rw [List.cons_append, readUnit, if_pos (isUnitChar_of_isAlpha hc), ih hcs]
    rfl

lemma readPoint_of_isAlpha (hcs : ∀ c ∈ cs, c.isAlpha = true) (hne : cs ≠ []) :
    readPoint (cs ++ rest) = some (none, cs ++ rest) := by
  obtain ⟨c, cs, rfl⟩ := List.exists_cons_of_ne_nil hne
  have hc := hcs c List.mem_cons_self
  rw [List.cons_append, readPoint]
  rintro rest' he
  rw [(List.cons.inj he).1] at hc
  exact absurd hc (by decide)

/-! ## Adding spans up -/

/-- Whether the reader stays within its bounds when it adds a span to a total. -/
structure Fits (total : Duration) (p : Span) : Prop where
  nanos : p.2.wholeGrain = 1 → p.1 * p.2.length < ofParts 1 0
  secs : (total + p.1 * p.2.length).secs < UInt64.size

lemma TimeUnit.wholeGrain_dvd (u : TimeUnit) : u.wholeGrain ∣ u.length := by
  cases u <;> decide

lemma TimeUnit.wholeGrain_cases (u : TimeUnit) : u.wholeGrain = 1 ∨ u.wholeGrain = 1000000000 := by
  cases u <;> decide

/-- A number of a unit in grains. -/
lemma grains_mul (n : Nat) (u : TimeUnit) : n * (u.length / u.wholeGrain) * u.wholeGrain = n * u.length := by
  rw [Nat.mul_assoc, Nat.div_mul_cancel u.wholeGrain_dvd]

lemma Fits.grains_lt (h : Fits total (n, u)) : n * (u.length / u.wholeGrain) < UInt64.size := by
  rcases u.wholeGrain_cases with hgrain | hgrain
  · rw [hgrain, Nat.div_one]
    exact Nat.lt_trans (h.nanos hgrain) (by decide)
  · have hsecs := h.secs
    have hmul := grains_mul n u
    dsimp only at hsecs
    rw [← hmul, hgrain, Duration.secs] at hsecs
    rw [hgrain]
    omega

lemma Fits.number_lt (h : Fits total (n, u)) : n < UInt64.size := by
  have hpos : 0 < u.length / u.wholeGrain := by
    cases u <;> decide
  exact Nat.lt_of_le_of_lt (Nat.le_mul_of_pos_right n hpos) h.grains_lt

lemma Fits.addWhole (h : Fits total (n, u)) : addWhole total n u = some (total + n * u.length) := by
  rw [Duration.addWhole, within64_of_lt h.grains_lt]
  dsimp only
  rw [addGrains, grains_mul, if_pos]
  refine ⟨fun hgrain => ?_, h.secs⟩
  have hnanos := h.nanos hgrain
  rw [hgrain, Nat.div_one]
  dsimp only at hnanos
  rw [ofParts] at hnanos
  rw [subsecNanos, UInt64.size]
  omega

/-- A span is read and added to the total, and what stands behind it tells whether there are more. -/
lemma readSpans_span (h : Fits total (n, u)) (hrest : Ends rest) (fuel : Nat) :
    readSpans (fuel + 1) total (n.repr.toList ++ ((u.nameFor n).toList ++ rest)) =
      if (rest.dropWhile Text.isBlank).isEmpty then some (total + n * u.length)
      else readSpans fuel (total + n * u.length) rest := by
  have hname := u.isAlpha_of_mem_nameFor n
  obtain ⟨c, cs, he, hc, hread⟩ := readWhole_repr h.number_lt hname (u.nameFor_ne_nil n) rest
  have hblank := isBlank_of_isDigit hc
  rw [he, List.cons_append, readSpans, List.dropWhile_cons_of_neg (by simp [hblank])]
  simp only [if_pos hc, hread, Option.bind_eq_bind, Option.bind_some,
    readPoint_of_isAlpha hname (u.nameFor_ne_nil n), readUnit_append hname hrest, String.ofList_toList,
    u.ofName?_nameFor n, addSpan, h.addWhole]

lemma readSpans_blank (fuel : Nat) (total : Duration) (cs : List Char) :
    readSpans fuel total (' ' :: cs) = readSpans fuel total cs := by
  cases fuel with
  | zero => rfl
  | succ fuel =>
    rw [readSpans, readSpans, List.dropWhile_cons_of_pos (by decide)]

/-- Spans are read and added up. -/
theorem readSpans_spell (hne : ps ≠ []) (hfuel : ps.length ≤ fuel)
    (hnanos : ∀ p ∈ ps, p.2.wholeGrain = 1 → p.1 * p.2.length < ofParts 1 0)
    (hsecs : (total + sum ps).secs < UInt64.size) :
    readSpans fuel total (spell ps) = some (total + sum ps) := by
  induction ps generalizing fuel total with
  | nil => exact absurd rfl hne
  | cons p ps ih =>
    obtain ⟨hp, hps⟩ := List.forall_mem_cons.mp hnanos
    rw [sum_cons, ← Nat.add_assoc] at hsecs ⊢
    have hle : (total + p.1 * p.2.length).secs ≤ (total + p.1 * p.2.length + sum ps).secs :=
      Nat.div_le_div_right (Nat.le_add_right _ _)
    have hfits : Fits total p := ⟨hp, Nat.lt_of_le_of_lt hle hsecs⟩
    obtain ⟨fuel, rfl⟩ := Nat.exists_eq_succ_of_ne_zero (Nat.ne_zero_of_lt hfuel)
    cases ps with
    | nil =>
      have hread := readSpans_span hfits .nil fuel
      rw [List.append_nil] at hread
      rw [spell_singleton, hread]
      rfl
    | cons q ps =>
      have hhead : ¬ ((' ' :: spell (q :: ps)).dropWhile Text.isBlank).isEmpty := by
        obtain ⟨c, cs, he, hc⟩ := exists_spell q ps
        rw [he, List.dropWhile_cons_of_pos (by decide),
          List.dropWhile_cons_of_neg (by simp [isBlank_of_isDigit hc])]
        exact Bool.false_ne_true
      rw [spell_cons_cons, readSpans_span hfits .blank, if_neg hhead, readSpans_blank]
      exact ih (List.cons_ne_nil q ps) (Nat.le_of_succ_le_succ hfuel) hps hsecs

/-- Every length whose seconds fit in 64 bits is read back from what it is written as. -/
theorem ofHuman?_human (h : d.secs < UInt64.size) : ofHuman? d.human = some d := by
  have hread : readSpans d.human.length 0 d.human.toList = some d := by
    have hfuel : d.spans.length ≤ d.human.length := by
      rw [← String.length_toList, human_toList]
      exact length_le_length_spell d.spans
    have hsum : 0 + sum d.spans = d := by
      rw [sum_spans, Nat.zero_add]
    rw [human_toList, readSpans_spell d.spans_ne_nil hfuel (fun _ hp => lt_of_mem_spans hp), hsum]
    rw [hsum]
    exact h
  rw [ofHuman?, if_neg, hread]
  -- A zero without a unit is the one text that is read apart; no length is written so.
  intro hzero
  rw [hzero] at hread
  cases hread

end StoreLock.Duration
