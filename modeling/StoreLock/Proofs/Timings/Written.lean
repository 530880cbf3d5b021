import StoreLock.Proofs.Duration.Human
import StoreLock.Proofs.Json.Object
import StoreLock.Proofs.Timings.Toml
import StoreLock.Timings.Json

/-!
# Timings read back

Timings are written as three members, each a duration for people, in JSON as well as in TOML. Reading takes
up one member after another (`putAll_members`), whichever form they come in. A duration is written in
letters, digits and spaces only (`isSpelled_of_mem_human`), which stand for themselves in both forms. So
timings are read back from either, and what reads TOML refuses them just as they are refused themselves
(`written_read_back`).
-/

namespace StoreLock

namespace Duration

variable {c : Char} {d : Duration}

lemma quoteChar_of_isSpelled (h : IsSpelled c) : Marker.quoteChar c = [c] := by
  rw [Marker.quoteChar, if_neg (h.ne (by decide)), if_neg (h.ne (by decide)), if_neg (h.ne (by decide)),
    if_neg (h.ne (by decide)), if_neg (h.ne (by decide)), if_neg (h.ne (by decide)),
    if_neg (h.ne (by decide)), if_neg (Nat.not_lt.mpr h.bounds.1)]

lemma isVerbatim_of_isSpelled (h : IsSpelled c) : Timings.Toml.IsVerbatim c := by
  obtain ⟨hlow, hhigh⟩ := h.bounds
  refine ⟨?_, h.ne (by decide), h.ne (by decide)⟩
  rw [Timings.Toml.isPlain, Bool.or_eq_true, Bool.and_eq_true, decide_eq_true_eq, bne_iff_ne]
  exact .inr ⟨hlow, Nat.ne_of_lt hhigh⟩

/-- Nothing in a length that is written for people is escaped. -/
lemma quote_human (d : Duration) : Marker.quote d.human = "\"" ++ d.human ++ "\"" := by
  have hchars : d.human.toList.flatMap Marker.quoteChar = d.human.toList := by
    rw [List.flatMap_congr (g := fun c => [c]) fun c hc => quoteChar_of_isSpelled (isSpelled_of_mem_human hc),
      List.flatMap_singleton']
  rw [Marker.quote, hchars, ← String.toList_inj, String.toList_ofList, String.toList_append,
    String.toList_append]
  rfl

end Duration

namespace Timings

/-- The members of timings as they are written. -/
def members (t : Timings) : List (String × String) :=
  [("timeout", t.timeout.human), ("polling", t.polling.human), ("settling", t.settling.human)]

/-- Whether the seconds of all three lengths fit in 64 bits. -/
structure Fits (t : Timings) : Prop where
  timeout : t.timeout.secs < UInt64.size
  polling : t.polling.secs < UInt64.size
  settling : t.settling.secs < UInt64.size

variable {t : Timings} {d d' : Draft} {ms : List (String × String)}

/-- All members of timings are taken up. -/
lemma putAll_members (ht : t.Fits) : Draft.putAll {} t.members =
    some ⟨some t.timeout, some t.polling, some t.settling⟩ := by
  simp [members, Draft.putAll, Draft.put, Duration.ofHuman?_human ht.timeout,
    Duration.ofHuman?_human ht.polling, Duration.ofHuman?_human ht.settling]

/-! ## JSON -/

/-- A member with its value in quotes. -/
def quoted (m : String × String) : String × Json.Bytes :=
  (m.1, Text.toUtf8 (Marker.quote m.2))

lemma toUtf8_json (t : Timings) : Text.toUtf8 t.json = Json.object (t.members.map quoted) := by
  have hquote : Text.toUtf8 "\"" = [Json.byte '"'] := by
    decide
  have htimeout : Text.toUtf8 "\x7b\"timeout\":\"" =
      Json.byte '{' :: (Text.toUtf8 (Marker.quote "timeout") ++ [Json.byte ':', Json.byte '"']) := by
    decide
  have hpolling : Text.toUtf8 "\",\"polling\":\"" =
      Json.byte '"' :: Json.byte ',' ::
        (Text.toUtf8 (Marker.quote "polling") ++ [Json.byte ':', Json.byte '"']) := by
    decide
  have hsettling : Text.toUtf8 "\",\"settling\":\"" =
      Json.byte '"' :: Json.byte ',' ::
        (Text.toUtf8 (Marker.quote "settling") ++ [Json.byte ':', Json.byte '"']) := by
    decide
  have hend : Text.toUtf8 "\"\x7d" = [Json.byte '"', Json.byte '}'] := by
    decide
  -- Not `rw`, since Lean needs seconds to make the equation of `json`.
  delta json
  simp only [Text.toUtf8_append, members, quoted, Duration.quote_human, Json.object, Json.written,
    List.map_cons, List.map_nil, List.intercalate_cons_cons, List.intercalate_singleton, hquote, htimeout,
    hpolling, hsettling, hend, List.append_assoc, List.cons_append, List.nil_append]

/-- Members whose values are read as durations are taken up from an object too. -/
lemma takes_quoted (h : d.putAll ms = some d') :
    Json.Takes Draft.member (ms.map quoted) d d' := by
  induction ms generalizing d with
  | nil =>
    cases h
    exact .nil
  | cons m ms ih =>
    rw [Draft.putAll, List.foldlM_cons, Option.bind_eq_bind, Option.bind_eq_some_iff] at h
    obtain ⟨d₁, hput, hms⟩ := h
    refine .cons (fun b rest _ => ?_) (ih hms)
    simp [Draft.member, Json.readString_quote, hput]

theorem ofJson?_json (ht : t.Fits) : ofJson? t.json = some t := by
  have hread := Json.readDocument_object keys (takes_quoted (putAll_members ht))
  rw [ofJson?, toUtf8_json]
  exact congrArg (·.bind Draft.finish) hread

/-! ## TOML -/

lemma toml_toList (t : Timings) : t.toml.toList = t.members.flatMap Toml.line := by
  delta toml
  simp [members, Toml.line]

lemma isLine_of_mem_members : ∀ m ∈ t.members, Toml.IsLine m := by
  have hvalue (d : Duration) : ∀ c ∈ d.human.toList, Toml.IsVerbatim c :=
    fun c hc => Duration.isVerbatim_of_isSpelled (Duration.isSpelled_of_mem_human hc)
  have hkey : ∀ key ∈ keys, (∀ c ∈ key.toList, Toml.isBareKey c = true) ∧ key.toList ≠ [] := by
    simp [keys, Toml.isBareKey]
  have hmember (key : String) (hmem : key ∈ keys) (d : Duration) : Toml.IsLine (key, d.human) :=
    ⟨(hkey key hmem).1, (hkey key hmem).2, hvalue d⟩
  rw [members]
  simp only [List.forall_mem_cons, List.not_mem_nil, false_implies, implies_true, and_true]
  exact ⟨hmember _ (by decide) _, hmember _ (by decide) _, hmember _ (by decide) _⟩

theorem ofToml?_toml (ht : t.Fits) : ofToml? t.toml = some t := by
  have hfuel : t.members.length ≤ t.toml.toList.length := by
    rw [toml_toList]
    simp [members, Toml.line]
  have hread := Toml.readLines_lines isLine_of_mem_members {} hfuel
  rw [← toml_toList, putAll_members ht] at hread
  have hmark : Toml.skipByteOrderMark t.toml.toList = t.toml.toList := by
    obtain ⟨c, cs, he, hc⟩ : ∃ c cs, t.toml.toList = c :: cs ∧ Toml.isBareKey c = true := by
      rw [toml_toList]
      exact Toml.exists_line (isLine_of_mem_members _ List.mem_cons_self) _
    rw [he, Toml.skipByteOrderMark]
    exact fun _ => Toml.cons_ne_of_isBareKey hc (by decide)
  rw [ofToml?, hmark, hread]
  rfl

/-- Timings are refused for their first fault, in its words. -/
lemma exists_fault_of_check {e : LockError} (h : t.check = .error e) :
    ∃ fault, t.fault? = some fault ∧ e = .invalidConfig fault.detail := by
  rw [check] at h
  cases hf : t.fault? with
  | none =>
    rw [hf] at h
    cases h
  | some fault =>
    rw [hf] at h
    cases h
    exact ⟨fault, rfl, rfl⟩

lemma ofToml_toml (ht : t.Fits) : ofToml t.toml = t.check.map fun _ => t := by
  rw [ofToml, ofToml?_toml ht]

/-- Timings whose seconds fit in 64 bits are read back from what they are written as in JSON. Written in
TOML, they are read back if they pass their check; if not, reading fails with the very error of the check,
which tells their first fault. -/
theorem written_read_back (t : Timings) (ht : t.Fits) :
    ofJson? t.json = some t ∧
    (t.check = .ok () → ofToml t.toml = .ok t) ∧
    ∀ e, t.check = .error e →
      (∃ fault, t.fault? = some fault ∧ e = .invalidConfig fault.detail) ∧ ofToml t.toml = .error e := by
  refine ⟨ofJson?_json ht, ?_, ?_⟩
  · intro hcheck
    rw [ofToml_toml ht, hcheck]
    rfl
  · intro e hcheck
    refine ⟨exists_fault_of_check hcheck, ?_⟩
    rw [ofToml_toml ht, hcheck]
    rfl

/-- The longest timeout there is, the shortest pause and a length of one year, two months and one day with
all units below are read back. Timings whose timeout is not longer than settling are read back from JSON and
refused from TOML. -/
theorem written_read_back_longest :
    let longest : Timings := ⟨.ofParts 18446744073709551615 999999999, 1, .ofParts 36908293 1001001⟩
    let refused : Timings := ⟨.ofParts 1 1000000, .ofParts 0 5000, .ofParts 1 1000000⟩
    ofJson? longest.json = some longest ∧ ofToml longest.toml = .ok longest ∧
      ofJson? refused.json = some refused ∧ ofToml refused.toml =
        .error (.invalidConfig "timeout (1.001s) must be longer than settling (1.001s)") := by
  intro longest refused
  have hl : longest.Fits := ⟨by decide, by decide, by decide⟩
  have hr : refused.Fits := ⟨by decide, by decide, by decide⟩
  obtain ⟨hjson, htoml, -⟩ := written_read_back longest hl
  obtain ⟨hjson', -, htoml'⟩ := written_read_back refused hr
  exact ⟨hjson, htoml (by decide), hjson', (htoml' _ (by decide +kernel)).2⟩

end Timings

end StoreLock
