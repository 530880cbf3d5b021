import StoreLock.Proofs.Sequencer

/-!
# Drawing one sequence after another

A source keeps two numbers only, the one drawn last and the highest one seen. What it draws is told by its
whole history: of the numbers from the base on, the least that exceeds all numbers drawn and seen before
(`draws_least`). For what is drawn never decreases, however the wall clock jumps, so the number drawn last
is the largest of those drawn (`recalls`). Once the largest sequence has been drawn or seen, nothing
exceeds it, and it is what is drawn.

Numbers are drawn and seen in any order; the latest use of a source stands first.
-/

namespace StoreLock.Sequencer

/-- A use of a source. -/
inductive Use
  /-- A number is seen in the queue. -/
  | observe (n : UInt64)
  /-- A number is drawn while the wall clock shows `unixMillis`. -/
  | next (unixMillis : UInt64)

/-- What these uses make of a new source. -/
def ofUses (strategy : Strategy) : List Use → Sequencer
  | [] => { strategy }
  | .observe n :: uses => (ofUses strategy uses).observe n
  | .next unixMillis :: uses => ((ofUses strategy uses).next unixMillis).2

/-- The numbers that these uses draw from a new source. -/
def drawn (strategy : Strategy) : List Use → List UInt64
  | [] => []
  | .observe _ :: uses => drawn strategy uses
  | .next unixMillis :: uses => ((ofUses strategy uses).next unixMillis).1 :: drawn strategy uses

/-- The numbers seen in these uses. -/
def seen : List Use → List UInt64
  | [] => []
  | .observe n :: uses => n :: seen uses
  | .next _ :: uses => seen uses

/-- Whether a number is no smaller than the base and exceeds all that are known. -/
structure Free (base : UInt64) (known : List UInt64) (n : UInt64) : Prop where
  base_le : base ≤ n
  lt : ∀ k ∈ known, k < n

/-- Whether a number is the least that is free, or the largest of all because none is. -/
inductive Draws (base : UInt64) (known : List UInt64) (n : UInt64) : Prop where
  | least :
    Free base known n →
    (∀ m, Free base known m → n ≤ m) →
    Draws base known n
  | stays :
    (∀ m, ¬ Free base known m) →
    n = most →
    Draws base known n

/-- Whether this is the largest of some numbers, or nothing because there are none. -/
def IsTop (top : Option UInt64) (ns : List UInt64) : Prop :=
  match top with
  | none => ns = []
  | some n => n ∈ ns ∧ ∀ k ∈ ns, k ≤ n

/-- What a source recalls of the numbers that were drawn from it and seen. -/
structure Recalls (strategy : Strategy) (ns seen : List UInt64) (s : Sequencer) : Prop where
  strategy_eq : s.strategy = strategy
  last : IsTop s.last ns
  highestSeen : IsTop s.highestSeen seen

variable {top : Option UInt64} {ns ns' : List UInt64} {n k m unixMillis : UInt64} {s : Sequencer}
  {strategy : Strategy}

lemma le_most (n : UInt64) : n ≤ most := by
  have hn := n.toNat_lt
  rw [UInt64.le_iff_toNat_le, show most.toNat = 2 ^ 64 - 1 from rfl]
  omega

lemma after_le_iff (hn : n ≠ most) : after n ≤ m ↔ n < m := by
  have hlt := toNat_lt_after (UInt64.le_refl n) hn
  rw [UInt64.le_iff_toNat_le, UInt64.lt_iff_toNat_lt]
  rw [toNat_after] at hlt ⊢
  omega

lemma le_after (n : UInt64) : n ≤ after n := by
  have hn := UInt64.le_iff_toNat_le.mp (le_most n)
  rw [UInt64.le_iff_toNat_le, toNat_after]
  omega

/-- What is drawn is no smaller than the base and what comes after the two numbers kept, and it is the
least such number. -/
lemma next_le_iff : (s.next unixMillis).1 ≤ m ↔
    s.base unixMillis ≤ m ∧ above s.last ≤ m ∧ above s.highestSeen ≤ m := by
  simp only [UInt64.le_iff_toNat_le, toNat_next]
  omega

namespace IsTop

lemma le_above (h : IsTop top ns) (hk : k ∈ ns) : k ≤ above top := by
  cases top with
  | none =>
    rw [show ns = [] from h] at hk
    cases hk
  | some n => exact UInt64.le_trans (h.2 k hk) (le_after n)

/-- Short of the largest sequence, what comes after the largest of some numbers is the least that exceeds
them all. -/
lemma above_le_iff (h : IsTop top ns) (hm : most ∉ ns) : above top ≤ m ↔ ∀ k ∈ ns, k < m := by
  cases top with
  | none =>
    rw [show ns = [] from h]
    simp [above, UInt64.le_iff_toNat_le]
  | some n =>
    have hn : n ≠ most := ne_of_mem_of_not_mem h.1 hm
    rw [above, after_le_iff hn]
    constructor
    · intro hlt k hk
      exact UInt64.lt_of_le_of_lt (h.2 k hk) hlt
    · intro hall
      exact hall n h.1

lemma above_eq_most (h : IsTop top ns) (hm : most ∈ ns) : above top = most :=
  UInt64.le_antisymm (le_most _) (h.le_above hm)

lemma cons (h : ∀ k ∈ ns, k ≤ n) : IsTop (some n) (n :: ns) :=
  ⟨List.mem_cons_self, List.forall_mem_cons.mpr ⟨UInt64.le_refl n, h⟩⟩

end IsTop

namespace Recalls

/-- Noting a number keeps the largest of those seen. -/
lemma observe (h : Recalls strategy ns ns' s) (n : UInt64) :
    Recalls strategy ns (n :: ns') (s.observe n) where
  strategy_eq := h.strategy_eq
  last := h.last
  highestSeen := by
    have htop := h.highestSeen
    rw [Sequencer.observe]
    cases hs : s.highestSeen with
    | none =>
      rw [hs] at htop
      rw [show ns' = [] from htop]
      exact .cons fun _ hk => absurd hk List.not_mem_nil
    | some high =>
      rw [hs] at htop
      change IsTop (some (if high ≤ n then n else high)) (n :: ns')
      split
      case isTrue hle => exact .cons fun k hk => UInt64.le_trans (htop.2 k hk) hle
      case isFalse hle =>
        refine ⟨List.mem_cons_of_mem n htop.1, List.forall_mem_cons.mpr ⟨?_, htop.2⟩⟩
        exact UInt64.le_of_lt (UInt64.not_le.mp hle)

/-- What is drawn reaches up to every number drawn before, and above it unless that is the largest of
all. -/
lemma le_next (h : Recalls strategy ns ns' s) (hk : k ∈ ns) : k ≤ (s.next unixMillis).1 :=
  UInt64.le_trans (h.last.le_above hk) (next_le_iff.mp (UInt64.le_refl _)).2.1

lemma lt_next (h : Recalls strategy ns ns' s) (hk : k ∈ ns) (hm : k ≠ most) :
    k < (s.next unixMillis).1 := by
  have htop := h.last
  cases hs : s.last with
  | none =>
    rw [hs] at htop
    rw [show ns = [] from htop] at hk
    cases hk
  | some n =>
    rw [hs] at htop
    exact lt_next_of_le_last unixMillis hs (htop.2 k hk) hm

lemma next (h : Recalls strategy ns ns' s) :
    Recalls strategy ((s.next unixMillis).1 :: ns) ns' (s.next unixMillis).2 where
  strategy_eq := h.strategy_eq
  last := .cons fun _ hk => h.le_next hk
  highestSeen := h.highestSeen

/-- A source that recalls what was drawn and seen draws the least number above all that. -/
lemma draws (h : Recalls strategy ns ns' s) (unixMillis : UInt64) :
    Draws (s.base unixMillis) (ns ++ ns') (s.next unixMillis).1 := by
  obtain ⟨hbase, hlast, hseen⟩ := next_le_iff.mp (UInt64.le_refl (s.next unixMillis).1)
  by_cases hm : most ∈ ns ++ ns'
  · refine .stays ?_ (UInt64.le_antisymm (le_most _) ?_)
    · intro m hfree
      exact UInt64.not_lt.mpr (le_most m) (hfree.lt most hm)
    · rcases List.mem_append.mp hm with hm | hm
      · rw [← h.last.above_eq_most hm]
        exact hlast
      · rw [← h.highestSeen.above_eq_most hm]
        exact hseen
  · obtain ⟨hdrawn, hnoted⟩ := not_or.mp (mt List.mem_append.mpr hm)
    refine .least ⟨hbase, ?_⟩ ?_
    · rw [List.forall_mem_append]
      exact ⟨(h.last.above_le_iff hdrawn).mp hlast, (h.highestSeen.above_le_iff hnoted).mp hseen⟩
    · intro m hfree
      have hlt := List.forall_mem_append.mp hfree.lt
      exact next_le_iff.mpr ⟨hfree.base_le, (h.last.above_le_iff hdrawn).mpr hlt.1,
        (h.highestSeen.above_le_iff hnoted).mpr hlt.2⟩

end Recalls

/-- After any uses, a source recalls the largest number drawn and the largest one seen. -/
theorem recalls (strategy : Strategy) (uses : List Use) :
    Recalls strategy (drawn strategy uses) (seen uses) (ofUses strategy uses) := by
  induction uses with
  | nil => exact ⟨rfl, rfl, rfl⟩
  | cons use uses ih =>
    cases use with
    | observe n => exact ih.observe n
    | next unixMillis => exact ih.next

/-- After any uses, the number drawn next is the least from the base on that exceeds all numbers drawn and
seen before, or the largest of all where there is none. So the numbers drawn, of which the latest stands
first, never decrease, and they grow until they have come to the largest of all. -/
theorem draws_least (strategy : Strategy) (uses : List Use) (unixMillis : UInt64) :
    Draws (({ strategy } : Sequencer).base unixMillis) (drawn strategy uses ++ seen uses)
      ((ofUses strategy uses).next unixMillis).1 ∧
    (drawn strategy uses).Pairwise fun later earlier =>
      earlier < later ∨ earlier = most ∧ later = most := by
  constructor
  · have h := recalls strategy uses
    have hdraws := h.draws unixMillis
    rw [base, h.strategy_eq] at hdraws
    exact hdraws
  · induction uses with
    | nil => exact .nil
    | cons use uses ih =>
      cases use with
      | observe n => exact ih
      | next unixMillis =>
        refine .cons ?_ ih
        intro k hk
        have h := recalls strategy uses
        by_cases hm : k = most
        · refine .inr ⟨hm, UInt64.le_antisymm (le_most _) ?_⟩
          rw [← hm]
          exact h.le_next hk
        · exact .inl (h.lt_next hk hm)

/-- Two numbers are seen and three drawn; the wall clock goes back before the last. -/
example : drawn .timestamp [.next 3000, .observe 9000, .next 5000, .observe 7, .next 5000] =
    [9001, 5001, 5000] := by
  decide

end StoreLock.Sequencer
