import StoreLock.Proofs.Store.Past
import StoreLock.Proofs.Store.Prompt
import StoreLock.Proofs.Text.Bytes

/-!
# How stale a listing may be

What a store in memory may show to a client, told by what has happened (`MemoryStore.Bounded`): it leaves
out no object that exists but those that others created less than the lag ago, and shows nothing else but
objects that others deleted less than the lag ago. So it is whoever lists and whatever fails, provided
that no creation replaces an object that exists (`MemoryStore.list_bounded`).

What a listing drops from the record has no part in this. A store without the records that nobody sees
any more (`MemoryStore.pruned`) gives the answers of one with them, and goes on to do so.
-/

namespace StoreLock.MemoryStore

/-- No object was created in place of one that existed. -/
def NoOverwrite (past : List Moment) : Prop :=
  ∀ later m earlier name, past = later ++ m :: earlier → m.Creates name → ¬ Exists earlier name

/-- What may be shown to a client after what has happened. -/
structure Bounded (lag : Duration) (past : List Moment) (client : Nat) (now : Instant)
    (start : String) (names : List String) : Prop where
  ordered : names.Pairwise fun n n' => Text.toUtf8 n < Text.toUtf8 n'
  complete : ∀ n c t, Has past n c t → Text.startsWith n start = true →
    c = client ∨ t + lag ≤ now → n ∈ names
  sound : ∀ n ∈ names, Text.startsWith n start = true ∧
    (Exists past n ∨ ∃ d t, Lost past n d t ∧ d ≠ client ∧ now < t + lag)

/-- The records from the first that is not before a text on, as long as their names start with it. -/
def scan (objects : List (String × ObjectRecord)) (start : String) :
    List (String × ObjectRecord) :=
  (objects.dropWhile fun p => decide (p.1 < start)).takeWhile fun p => Text.startsWith p.1 start

/-- The store without what nobody sees any more. -/
def pruned (now : Instant) (s : MemoryStore) : MemoryStore :=
  { s with objects := s.objects.filter fun p => isKept s.lag now p.2 }

variable {s s' t t' : MemoryStore} {past later : List Moment} {m : Moment} {now now' time : Instant}
  {name n start : String} {client : Nat} {o : ObjectRecord} {contents : ByteArray}
  {objects : List (String × ObjectRecord)} {names : List String} {lag : Duration} {kind : CallKind}

/-! ## The names that start with a text -/

/-- What stands between a text and one that starts with it starts with it too. -/
lemma isPrefix_of_lt_append {p a r : List Char} (h : ¬ a < p) (h' : a < p ++ r) : p <+: a := by
  induction p generalizing a with
  | nil => exact List.nil_prefix
  | cons c p ih =>
    cases a with
    | nil => exact absurd (List.nil_lt_cons c p) h
    | cons d a =>
      rw [List.cons_append, List.cons_lt_cons_iff] at h'
      rw [List.cons_lt_cons_iff, not_or, not_and] at h
      rcases h' with hlt | ⟨rfl, hlt⟩
      · exact absurd hlt h.1
      · rw [List.cons_prefix_cons]
        exact ⟨rfl, ih (h.2 rfl) hlt⟩

lemma not_lt_of_startsWith (h : Text.startsWith n start = true) : ¬ n < start := by
  obtain ⟨r, hr⟩ := List.isPrefixOf_iff_prefix.mp h
  rw [String.lt_iff_toList_lt, ← hr]
  exact List.le_append_left (α := Char)

lemma startsWith_of_lt (h : ¬ name < start) (hlt : name < n) (hn : Text.startsWith n start = true) :
    Text.startsWith name start = true := by
  obtain ⟨r, hr⟩ := List.isPrefixOf_iff_prefix.mp hn
  rw [String.lt_iff_toList_lt] at h hlt
  rw [← hr] at hlt
  exact List.isPrefixOf_iff_prefix.mpr (isPrefix_of_lt_append h hlt)

/-- In their order, the names that start with a text stand together from the text on. -/
theorem scan_eq_filter (h : objects.Pairwise fun p q => p.1 < q.1) :
    scan objects start = objects.filter fun p => Text.startsWith p.1 start := by
  induction objects with
  | nil => rfl
  | cons p objects ih =>
    rw [List.pairwise_cons] at h
    have ih := ih h.2
    rw [scan] at ih ⊢
    by_cases hlt : p.1 < start
    case pos =>
      have hp : ¬ Text.startsWith p.1 start = true := fun hp => not_lt_of_startsWith hp hlt
      rw [List.dropWhile_cons_of_pos (by simpa using hlt), ih]
      exact (List.filter_cons_of_neg (by simpa using hp)).symm
    case neg =>
      -- Nothing behind the first name that is not before the text is before it either.
      have hstop : (objects.dropWhile fun p => decide (p.1 < start)) = objects := by
        cases objects with
        | nil => rfl
        | cons q objects =>
          have hq := h.1 q List.mem_cons_self
          exact List.dropWhile_cons_of_neg (by simpa using fun hq' => hlt (hq.trans hq'))
      rw [hstop] at ih
      rw [List.dropWhile_cons_of_neg (by simpa using hlt)]
      by_cases hp : Text.startsWith p.1 start = true
      · simp only [List.takeWhile_cons, List.filter_cons, hp, if_true, ih]
      · have hnone : (objects.filter fun p => Text.startsWith p.1 start) = [] := by
          rw [List.filter_eq_nil_iff]
          intro q hq hq'
          exact hp (startsWith_of_lt hlt (h.1 q hq) hq')
        simp only [List.takeWhile_cons, List.filter_cons, hp, Bool.false_eq_true, if_false, hnone]

/-! ## What nobody sees any more -/

lemma begin_pruned : (s.pruned now).begin kind = ((s.begin kind).1, (s.begin kind).2.pruned now) := by
  rw [begin, begin]
  by_cases hu : s.isUnavailable = true
  · simp [pruned, hu]
  · by_cases hf : 0 < s.failures.get kind <;> simp [pruned, hu, hf]

lemma pruned_pruned (h : now ≤ now') : (s.pruned now).pruned now' = s.pruned now' := by
  simp only [pruned, List.filter_filter]
  congr 1
  apply List.filter_congr
  intro p _
  rw [Bool.and_eq_left_iff_imp]
  exact fun hk => isKept_of_le hk h

lemma pruned_insert : (insert (objects.filter fun p => isKept lag now p.2) name o).filter
      (fun p => isKept lag now p.2) =
    (insert objects name o).filter fun p => isKept lag now p.2 := by
  simp only [insert, List.filter_append, List.filter_cons, List.filter_filter]
  simp only [Bool.and_comm, Bool.and_left_comm, Bool.and_self]

lemma create_pruned (s : MemoryStore) (client : Nat) (now : Instant) (name : String)
    (contents : ByteArray) :
    ((s.pruned now).create client now name contents).1 = (s.create client now name contents).1 ∧
      ((s.pruned now).create client now name contents).2.pruned now =
        (s.create client now name contents).2.pruned now := by
  rw [create, create, begin_pruned]
  obtain ⟨failure, s₁⟩ := s.begin .create
  cases failure with
  | some e => exact ⟨rfl, pruned_pruned le_rfl⟩
  | none =>
    refine ⟨rfl, ?_⟩
    simp only [pruned, pruned_insert]

lemma delete_pruned (s : MemoryStore) (client : Nat) (now : Instant) (name : String) :
    ((s.pruned now).delete client now name).1 = (s.delete client now name).1 ∧
      ((s.pruned now).delete client now name).2.pruned now =
        (s.delete client now name).2.pruned now := by
  rw [delete, delete, begin_pruned]
  obtain ⟨failure, s₁⟩ := s.begin .delete
  cases failure with
  | some e => exact ⟨rfl, pruned_pruned le_rfl⟩
  | none =>
    refine ⟨rfl, ?_⟩
    simp only [pruned, List.filter_map, List.filter_filter]
    congr 2
    apply List.filter_congr
    intro p _
    rw [Bool.and_eq_left_iff_imp, Function.comp_apply]
    intro hk
    split at hk
    · exact isKept_markDeleted hk
    · exact hk

lemma list_pruned (s : MemoryStore) (client : Nat) (now : Instant) (start : String) :
    ((s.pruned now).list client now start).1 = (s.list client now start).1 ∧
      ((s.pruned now).list client now start).2.pruned now =
        (s.list client now start).2.pruned now := by
  rw [list, list, begin_pruned]
  obtain ⟨failure, s₁⟩ := s.begin .list
  cases failure with
  | some e => exact ⟨rfl, pruned_pruned le_rfl⟩
  | none => constructor <;> simp only [pruned, List.filter_filter, Bool.and_self]

/-- A moment at a store is one at every store that differs from it in what nobody sees any more. -/
lemma Step.of_pruned (hs : s.Step m s') (h : s.pruned m.now = t.pruned m.now) :
    ∃ t', t.Step m t' ∧ s'.pruned m.now = t'.pruned m.now := by
  cases hs with
  | @create now client name contents answer s' hs =>
    obtain ⟨hs₁, hs₂⟩ := create_pruned s client now name contents
    obtain ⟨ht₁, ht₂⟩ := create_pruned t client now name contents
    dsimp only at h ⊢
    rw [h, hs] at hs₁ hs₂
    exact ⟨(t.create client now name contents).2, .create (Prod.ext (ht₁.symm.trans hs₁) rfl),
      hs₂.symm.trans ht₂⟩
  | @delete now client name answer s' hs =>
    obtain ⟨hs₁, hs₂⟩ := delete_pruned s client now name
    obtain ⟨ht₁, ht₂⟩ := delete_pruned t client now name
    dsimp only at h ⊢
    rw [h, hs] at hs₁ hs₂
    exact ⟨(t.delete client now name).2, .delete (Prod.ext (ht₁.symm.trans hs₁) rfl),
      hs₂.symm.trans ht₂⟩
  | @list now client start answer s' hs =>
    obtain ⟨hs₁, hs₂⟩ := list_pruned s client now start
    obtain ⟨ht₁, ht₂⟩ := list_pruned t client now start
    dsimp only at h ⊢
    rw [h, hs] at hs₁ hs₂
    exact ⟨(t.list client now start).2, .list (Prod.ext (ht₁.symm.trans hs₁) rfl),
      hs₂.symm.trans ht₂⟩
  | openClient hs =>
    cases hs
    have hclients := congrArg MemoryStore.clients h
    refine ⟨{ t with clients := t.clients + 1 }, .openClient (Prod.ext hclients.symm rfl), ?_⟩
    exact congrArg (fun s : MemoryStore => { s with clients := s.clients + 1 }) h
  | @setUnavailable now value =>
    exact ⟨_, .setUnavailable, congrArg (fun s => MemoryStore.setUnavailable s value) h⟩
  | @failNext now kind count =>
    exact ⟨_, .failNext, congrArg (fun s => MemoryStore.failNext s kind count) h⟩

/-- What comes after can come after every store that differs in what nobody sees any more. -/
theorem Run.of_pruned (hr : Run s later s') (h : s.pruned now = t.pruned now)
    (ho : InOrder later) (hn : ∀ m ∈ later, now ≤ m.now) :
    ∃ t', Run t later t' ∧ ∀ now', now ≤ now' → (∀ m ∈ later, m.now ≤ now') →
      s'.pruned now' = t'.pruned now' := by
  induction hr with
  | nil =>
    refine ⟨t, .nil, ?_⟩
    intro now' hle _
    rw [← pruned_pruned hle, h, pruned_pruned hle]
  | cons _ hs ih =>
    rw [InOrder, List.pairwise_cons] at ho
    rw [List.forall_mem_cons] at hn
    obtain ⟨t₁, ht₁, hsame⟩ := ih ho.2 hn.2
    obtain ⟨t', ht', hsame'⟩ := hs.of_pruned (hsame _ hn.1 ho.1)
    refine ⟨t', .cons ht₁ ht', ?_⟩
    intro now' _ hle
    rw [List.forall_mem_cons] at hle
    rw [← pruned_pruned hle.1, hsame', pruned_pruned hle.1]

/-- What a listing drops from the record nobody sees any more. -/
lemma pruned_of_list (h : s.list client now start = (.ok names, s')) :
    { s' with objects := s.objects }.pruned now = s'.pruned now := by
  obtain ⟨hl, ⟨e, he, -⟩ | ⟨ho, -⟩⟩ := list_cases h
  · cases he
  · simp only [pruned, ho, hl, List.filter_filter, Bool.and_self]

/-! ## What is shown -/

lemma noOverwrite_nil : NoOverwrite [] := by
  intro later m earlier name h
  simp at h

lemma noOverwrite_cons : NoOverwrite (m :: past) ↔
    (∀ name, m.Creates name → ¬ Exists past name) ∧ NoOverwrite past := by
  constructor
  · intro h
    constructor
    · intro name hc
      exact h [] m past name rfl hc
    · intro later m' earlier name hp hc
      exact h (m :: later) m' earlier name (by rw [hp, List.cons_append]) hc
  · intro h later m' earlier name hp hc
    cases later with
    | nil =>
      cases hp
      exact h.1 name hc
    | cons m'' later =>
      cases hp
      exact h.2 later m' earlier name rfl hc

/-- Where nothing is replaced, an object that exists is the last that was made of its name. -/
lemma Has.made (h : Has past n client time) (ho : NoOverwrite past) : Made past n client time := by
  induction past with
  | nil => exact absurd h not_since_nil
  | cons m past ih =>
    rw [noOverwrite_cons] at ho
    rw [Has, since_cons] at h
    rw [Made, since_cons]
    rcases h with h | ⟨-, h⟩
    · exact .inl h
    · exact .inr ⟨fun hc => ho.1 n hc ⟨client, time, h⟩, ih h ho.2⟩

/-- The objects that exist are those that the past tells. -/
lemma Remembers.mem_objectNames (h : Remembers past now s) : n ∈ s.objectNames ↔ Exists past n := by
  simp only [objectNames, List.mem_map, List.mem_filter, Prod.exists, exists_and_right,
    exists_eq_right, Option.isNone_iff_eq_none]
  rw [exists_iff]
  constructor
  · intro hn
    obtain ⟨o, ho, hd⟩ := hn
    exact ⟨o, h.told n o ho, hd⟩
  · intro hn
    obtain ⟨o, hr, hd⟩ := hn
    exact ⟨o, h.kept n o hr (by rw [isKept, hd]), hd⟩

/-- Without a lag everyone is shown the objects that exist. -/
lemma list_of_no_lag (h : s.list client now start = (.ok names, s')) (hl : s.lag = 0) :
    names = s.objectNames.filter (Text.startsWith · start) := by
  obtain ⟨-, ⟨e, he, -⟩ | ⟨ho, he⟩⟩ := list_cases h
  · cases he
  cases he
  rw [ho, hl]
  simp only [isKept_zero, isVisible_zero, objectNames, List.filter_map, List.filter_filter]
  congr 1
  apply List.filter_congr
  intro p _
  rw [Bool.and_assoc, Bool.and_self, Function.comp_apply]

/-- A listing reads on from the text it is to start with, and no further than the names that do. -/
theorem list_eq_scan (hr : Run { lag } past s) (ho : InOrder past) (hn : ∀ m ∈ past, m.now ≤ now)
    (hs : s.list client now start = (.ok names, s')) :
    names = ((scan s'.objects start).filter fun p => isVisible lag client now p.2).map (·.1) := by
  have hlag : s.lag = lag := hr.lag_eq
  have hrem := (hr.remembers ho hn).list hs
  obtain ⟨-, ⟨e, he, -⟩ | ⟨-, he⟩⟩ := list_cases hs
  · cases he
  cases he
  rw [scan_eq_filter hrem.sorted, List.filter_filter, hlag]
  simp only [Bool.and_comm]

/-- What a client is shown is at most the lag behind. Without a lag it is the objects that exist, and what
the listing drops from the record changes nothing that may come after. -/
theorem list_bounded (hr : Run { lag } past s) (hs : s.list client now start = (.ok names, s'))
    (ho : InOrder (⟨now, .list client start (.ok names)⟩ :: past)) (hc : NoOverwrite past) :
    Bounded lag past client now start names ∧
      (∀ n, n ∈ s.objectNames ↔ Exists past n) ∧
      (lag = 0 → names = s.objectNames.filter (Text.startsWith · start)) ∧
      ∀ later, InOrder (later ++ ⟨now, .list client start (.ok names)⟩ :: past) →
        ((∃ t, Run s' later t) ↔ ∃ t, Run { s' with objects := s.objects } later t) := by
  rw [InOrder, List.pairwise_cons] at ho
  obtain ⟨hn, ho⟩ := ho
  have hrem : Remembers past now s := hr.remembers ho hn
  have hmem (n : String) := hr.mem_list_iff (n := n) ho hn hs
  refine ⟨⟨?_, ?_, ?_⟩, fun n => hrem.mem_objectNames, ?_, ?_⟩
  · simp only [Text.toUtf8_lt_toUtf8_iff]
    exact hrem.list_sorted hs
  · intro n c t hhas hstart hreached
    rw [hmem]
    exact ⟨hstart, ⟨c, t, hhas.made hc, hreached⟩, .inl ⟨c, t, hhas⟩⟩
  · intro n hin
    rw [hmem] at hin
    obtain ⟨hstart, -, hin⟩ := hin
    refine ⟨hstart, hin.imp_right ?_⟩
    intro hlost
    obtain ⟨d, t, hlost, hd⟩ := hlost
    rw [Reached, not_or, not_le] at hd
    exact ⟨d, t, hlost, hd.1, hd.2⟩
  · intro hl
    exact list_of_no_lag hs (hr.lag_eq.trans hl)
  · intro later hlater
    rw [InOrder, List.pairwise_append] at hlater
    have hfrom : ∀ m ∈ later, now ≤ m.now := fun m hm => hlater.2.2 m hm _ List.mem_cons_self
    have hsame := pruned_of_list hs
    constructor
    · intro h
      obtain ⟨t, ht⟩ := h
      obtain ⟨t', ht', -⟩ := ht.of_pruned hsame.symm hlater.1 hfrom
      exact ⟨t', ht'⟩
    · intro h
      obtain ⟨t, ht⟩ := h
      obtain ⟨t', ht', -⟩ := ht.of_pruned hsame hlater.1 hfrom
      exact ⟨t', ht'⟩

/-- What one client has deleted is still shown to another. -/
theorem list_bounded_of_deleted : ∃ (past : List Moment) (s s' : MemoryStore),
    Run { lag := 5 } past s ∧ s.list 1 12 "a" = (.ok ["a"], s') ∧
      InOrder (⟨12, .list 1 "a" (.ok ["a"])⟩ :: past) ∧ NoOverwrite past ∧
      Lost past "a" 0 10 ∧ Bounded 5 past 1 12 "a" ["a"] := by
  let past : List Moment :=
    [⟨10, .delete 0 "a" (.ok ())⟩, ⟨1, .openClient 1⟩, ⟨0, .create 0 "a" .empty (.ok ())⟩]
  have hr : ∃ s, Run { lag := 5 } past s ∧
      s.objects = [("a", ⟨.empty, 0, 0, some (0, 10)⟩)] ∧ s.lag = 5 ∧ s.Works := by
    refine ⟨_, .cons (.cons (.cons .nil (.create rfl)) (.openClient rfl)) (.delete rfl), rfl, rfl, rfl, ?_⟩
    intro kind
    cases kind <;> rfl
  obtain ⟨s, hr, hobjects, hlag, hworks⟩ := hr
  obtain ⟨s', hs, -⟩ := hworks.list 1 12 "a"
  have hseen : s.seen 1 12 "a" = ["a"] := by
    rw [seen, hobjects, hlag]
    decide
  rw [hseen] at hs
  have ho : InOrder (⟨12, .list 1 "a" (.ok ["a"])⟩ :: past) := by
    simp [InOrder, past]
  have hc : NoOverwrite past := by
    simp only [past, noOverwrite_cons]
    refine ⟨by simp [Moment.Creates], by simp [Moment.Creates], ?_, noOverwrite_nil⟩
    intro n _ h
    obtain ⟨c, t, h⟩ := h
    exact not_since_nil h
  have hlost : Lost past "a" 0 10 := by
    refine since_cons.mpr (.inl ⟨rfl, ?_⟩)
    refine exists_cons.mpr (.inr ⟨by simp [Moment.Deletes], ?_⟩)
    exact exists_cons.mpr (.inl ⟨0, .empty, rfl⟩)
  exact ⟨past, s, s', hr, hs, ho, hc, hlost, (list_bounded hr hs ho hc).1⟩

end StoreLock.MemoryStore
