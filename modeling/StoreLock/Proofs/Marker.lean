import StoreLock.Proofs.Json.Object
import StoreLock.Proofs.Lock.Deletion

/-!
# Markers

A marker is written as an object of three members and read back from it, whatever text the owner is and
whatever the two numbers are (`ofContents?_contents`). An object that a lock asks its store to create tells
its entry twice, by its name and by its marker. Both are written when the sequence is drawn
(`Step.creating`), so they tell the same (`marker_agrees_with_name`).
-/

namespace StoreLock

namespace Marker

/-- The members of a marker with their values as they are written. -/
def members (m : Marker) : List (String × Json.Bytes) :=
  [("owner", Text.toUtf8 (quote m.owner)), ("sequence", Text.toUtf8 m.sequence.toNat.repr),
    ("createdAtMs", Text.toUtf8 m.createdAtMs.toNat.repr)]

lemma toUtf8_text (m : Marker) : Text.toUtf8 m.text = Json.object m.members := by
  have howner : Text.toUtf8 "\x7b\"owner\":" =
      Json.byte '{' :: (Text.toUtf8 (quote "owner") ++ [Json.byte ':']) := by
    decide
  have hsequence : Text.toUtf8 ",\"sequence\":" =
      Json.byte ',' :: (Text.toUtf8 (quote "sequence") ++ [Json.byte ':']) := by
    decide
  have hcreated : Text.toUtf8 ",\"createdAtMs\":" =
      Json.byte ',' :: (Text.toUtf8 (quote "createdAtMs") ++ [Json.byte ':']) := by
    decide
  have hend : Text.toUtf8 "\x7d" = [Json.byte '}'] := by
    decide
  simp only [text, Text.toUtf8_append, members, Json.object, Json.written, List.map_cons, List.map_nil,
    List.intercalate_cons_cons, List.intercalate_singleton, howner, hsequence, hcreated, hend,
    List.append_assoc, List.cons_append, List.nil_append]

/-- The members of a marker are taken up as its owner and its two numbers. -/
lemma takes_members (m : Marker) : Json.Takes Draft.member m.members {}
    ⟨some m.owner, some m.sequence, some m.createdAtMs⟩ := by
  have howner (b : UInt8) (rest : Json.Bytes) (_ : Json.Delimits b) :
      Draft.member {} "owner" (Text.toUtf8 (quote m.owner) ++ b :: rest) =
        some ({ owner := some m.owner }, b :: rest) := by
    simp [Draft.member, Json.readString_quote]
  have hsequence (b : UInt8) (rest : Json.Bytes) (hb : Json.Delimits b) :
      Draft.member { owner := some m.owner } "sequence" (Text.toUtf8 m.sequence.toNat.repr ++ b :: rest) =
        some ({ owner := some m.owner, sequence := some m.sequence }, b :: rest) := by
    simp [Draft.member, Json.readUInt64_repr m.sequence hb]
  have hcreated (b : UInt8) (rest : Json.Bytes) (hb : Json.Delimits b) :
      Draft.member { owner := some m.owner, sequence := some m.sequence } "createdAtMs"
          (Text.toUtf8 m.createdAtMs.toNat.repr ++ b :: rest) =
        some (⟨some m.owner, some m.sequence, some m.createdAtMs⟩, b :: rest) := by
    simp [Draft.member, Json.readUInt64_repr m.createdAtMs hb]
  exact .cons howner (.cons hsequence (.cons hcreated .nil))

/-- What a marker is written as is read as that marker. -/
theorem ofContents?_contents (m : Marker) : ofContents? m.contents = some m := by
  have htext : m.contents.data.toList = Json.object m.members := m.toUtf8_text
  have hread := Json.readDocument_object ["owner", "sequence", "createdAtMs"] m.takes_members
  rw [ofContents?, htext]
  exact congrArg (·.bind Draft.finish) hread

end Marker

namespace Member

variable {m m' : Member} {input : Input} {inputs : List Input} {lockPrefix : String} {owner : OwnerId}
  {w : Window} {e : Entry} {contents : ByteArray} {phase : Lock.Phase} {n : String}

/-- An entry is asked for with a marker that tells its owner and its sequence. -/
lemma Step.creating (st : Step m input m') (hm : m.Coherent)
    (hp : m'.progress = some (.request (.creating w e contents))) :
    m'.lock.sequencer.last = some e.sequence ∧
      ∃ createdAtMs, contents = (⟨e.owner.text, e.sequence, createdAtMs⟩ : Marker).contents := by
  have hpending : m'.pending? = some e := by
    rw [pending?, hp]
  rcases st.cases with c | ⟨w', listed, r, -, -, rfl⟩ | ⟨w', e', b, r, -, -, rfl⟩ |
    ⟨w', listed, r, hr, -, rfl⟩
  · rw [c.leads.pending] at hpending
    cases hpending
  · cases hp
    exact ⟨rfl, r.unixMillis, rfl⟩
  · rw [(pause_leads _ _ _ _ _).pending] at hpending
    cases hpending
  · obtain ⟨a, ha⟩ := hm.attempt (IsRanking.isQueuing ⟨w', hr⟩)
    rw [(judge_leads w' listed r r.now ha).pending] at hpending
    cases hpending

/-- In every run of a lock, an entry is asked for with the prefix and the owner of the lock, with the
sequence drawn last, and with a marker that tells the same. -/
lemma Run.creating {l : Lock} {timings : Timings} {strategy : Strategy}
    (hl : Lock.create lockPrefix owner timings strategy = .ok l) (run : Run { lock := l } inputs m)
    (hp : m.progress = some (.request (.creating w e contents))) :
    e.lockPrefix = lockPrefix ∧ e.owner = owner ∧ m.lock.sequencer.last = some e.sequence ∧
      ∃ createdAtMs, contents = (⟨e.owner.text, e.sequence, createdAtMs⟩ : Marker).contents := by
  have hpending : m.pending? = some e := by
    rw [pending?, hp]
  obtain ⟨hlock, howner⟩ := (run.recorded hl).pending e hpending
  cases run with
  | nil => cases hp
  | cons run st => exact ⟨hlock, howner, st.creating (run.recorded hl).coherent hp⟩

/-- A marker is read back from what it is written as. And whenever a lock whose owner is accepted asks its
store to create an object, the name is read as an entry of its prefix and its owner with the sequence that
it has drawn, and the contents as a marker of the same owner and the same sequence. -/
theorem marker_agrees_with_name :
    (∀ marker : Marker, Marker.ofContents? marker.contents = some marker) ∧
    ∀ (lockPrefix : String) (owner : OwnerId) (timings : Timings) (strategy : Strategy) (l : Lock)
      (inputs : List Input) (m : Member) (phase : Lock.Phase) (n : String) (contents : ByteArray),
      Lock.create lockPrefix owner timings strategy = .ok l →
      OwnerId.ofText owner.text = .ok owner →
      Run { lock := l } inputs m →
      m.progress = some (.request phase) →
      phase.request = .create n contents →
      ∃ sequence createdAtMs, m.lock.sequencer.last = some sequence ∧
        Entry.ofName n = .ok ⟨lockPrefix, sequence, owner⟩ ∧
        Marker.ofContents? contents = some ⟨owner.text, sequence, createdAtMs⟩ := by
  refine ⟨Marker.ofContents?_contents, ?_⟩
  intro lockPrefix owner timings strategy l inputs m phase n contents hl ho run hp hn
  cases phase with
  | creating w e contents' =>
    cases hn
    obtain ⟨rfl, rfl, hlast, createdAtMs, rfl⟩ := run.creating hl hp
    obtain ⟨-, hne, -⟩ := Lock.eq_of_create hl
    refine ⟨e.sequence, createdAtMs, hlast, ?_, Marker.ofContents?_contents _⟩
    rw [Entry.ofName_eq_ok]
    exact Entry.read_name ⟨hne, OwnerId.accepts_iff.mpr (OwnerId.ofText_eq_ok_iff.mp ho).2⟩
  | _ => cases hn

/-- A lock comes behind another's entry and asks for its own; and a marker is read back whose owner has all
that is escaped in it, a control and a character beyond the first plane, and whose sequence is the
largest. -/
theorem marker_agrees_with_name_behind_another : ∃ l inputs m phase contents createdAtMs,
    Lock.create "locks/config" ⟨"a-0"⟩ .recommended .counter = .ok l ∧
      OwnerId.ofText "a-0" = .ok ⟨"a-0"⟩ ∧ Run { lock := l } inputs m ∧
      m.progress = some (.request phase) ∧
      phase.request = .create "locks/config_00000000000000000042_a-0" contents ∧
      Entry.ofName "locks/config_00000000000000000042_a-0" = .ok ⟨"locks/config", 42, ⟨"a-0"⟩⟩ ∧
      Marker.ofContents? contents = some ⟨"a-0", 42, createdAtMs⟩ ∧
      Marker.ofContents? (⟨"\"\\\n\x00\x7f😀", Sequencer.most, 9007199254740993⟩ : Marker).contents =
        some ⟨"\"\\\n\x00\x7f😀", Sequencer.most, 9007199254740993⟩ := by
  let l : Lock := ⟨"locks/config", ⟨"a-0"⟩, .recommended, { strategy := .counter }, {}, .idle, none⟩
  have hl : Lock.create "locks/config" ⟨"a-0"⟩ .recommended .counter = .ok l := by
    decide +kernel
  have ho : OwnerId.ofText "a-0" = .ok ⟨"a-0"⟩ := by
    decide +kernel
  let w : Window := ⟨0, none⟩
  let r : Reading := ⟨0, 1700000000123, false⟩
  let listed := ["locks/config_00000000000000000041_b"]
  let own : Entry := ⟨"locks/config", 42, ⟨"a-0"⟩⟩
  let m₁ := ofTurn (l.acquire none r) 0
  let m₂ := ofTurn (m₁.lock.resume (.seeding w) (.ok listed) r) 0
  have hdrawn : m₂.pending? = some own := by
    decide +kernel
  have hlast : m₂.lock.sequencer.last = some 42 := by
    decide +kernel
  have hname : own.name = "locks/config_00000000000000000042_a-0" := by
    decide +kernel
  obtain ⟨e, contents, hp⟩ : ∃ e contents, m₂.progress = some (.request (.creating w e contents)) :=
    ⟨_, _, rfl⟩
  obtain rfl : e = own := by
    rw [pending?, hp] at hdrawn
    exact Option.some.inj hdrawn
  have st₁ : Step { lock := l } (.acquire none r) m₁ := .acquire trivial
  have st₂ : Step m₁ (.answer (.seeding w) (.ok listed) r) m₂ := .answer rfl
  have run := (Run.nil.cons st₁).cons st₂
  have hreq : (Lock.Phase.creating w own contents).request =
      .create "locks/config_00000000000000000042_a-0" contents := by
    rw [← hname]
    rfl
  have h := marker_agrees_with_name
  obtain ⟨sequence, createdAtMs, hs, hread, hmarker⟩ := h.2 _ _ _ _ l _ m₂ _ _ contents hl ho run hp hreq
  rw [hlast] at hs
  cases hs
  exact ⟨l, _, m₂, _, contents, createdAtMs, hl, ho, run, hp, hreq, hread, hmarker, h.1 _⟩

end Member

end StoreLock
