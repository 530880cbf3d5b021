import Mathlib
import StoreLock.Channel

/-!
# What a look at a pause comes to

A look at a pause that waits for its clock and its channel ends it early if and only if true was sent that it had
not noticed, and it asked the channel in time (`Nap.watch_cases`). A pause whose time is up has ended after the
look (`Nap.look_over`).
-/

namespace StoreLock

namespace Nap

variable {c : CancelChannel} {n : Nap} {isOver channelFirst : Bool}

/-- How a pause goes on that has noticed all that was sent. -/
def goesOn (c : CancelChannel) (isOver : Bool) : Nap :=
  if isOver then .ended .elapsed else if c.hasSender then .watching else .alone

lemma watch_of_seen (h : c.isUnseen = false) : watch c isOver channelFirst = (goesOn c isOver, c) := by
  rw [watch, CancelChannel.select, h, goesOn]
  cases isOver <;> cases channelFirst <;> cases c.hasSender <;> rfl

/-- A look at a pause that waits for its clock and its channel ends it if the channel has true to tell and is
asked in time. Else the pause goes on, and has noticed at most what was sent. -/
lemma watch_cases (c : CancelChannel) (isOver channelFirst : Bool) :
    (watch c isOver channelFirst = (.ended .cancelled, c.see) ∧ c.isUnseen = true ∧ c.value = true ∧
        (isOver = true → channelFirst = true)) ∨
      (watch c isOver channelFirst).1 = goesOn c isOver ∧
        ((watch c isOver channelFirst).2 = c ∨ (watch c isOver channelFirst).2 = c.see) := by
  cases hu : c.isUnseen with
  | false =>
    rw [watch_of_seen hu]
    exact .inr ⟨rfl, .inl rfl⟩
  | true =>
    by_cases hclock : (isOver && !channelFirst) = true
    · have hover : isOver = true := (Bool.and_eq_true_iff.mp hclock).1
      rw [watch, CancelChannel.select, if_pos hclock, goesOn, if_pos hover]
      exact .inr ⟨rfl, .inl rfl⟩
    · rw [watch, CancelChannel.select, if_neg hclock, if_pos hu]
      cases hv : c.value with
      | true =>
        refine .inl ⟨rfl, rfl, rfl, ?_⟩
        rintro rfl
        simpa using hclock
      | false =>
        -- The second turn finds nothing sent.
        have hseen : watch c.see isOver channelFirst = (goesOn c.see isOver, c.see) := watch_of_seen rfl
        refine .inr ?_
        simp only [Bool.false_eq_true, if_false, hseen]
        exact ⟨rfl, .inr trivial⟩

lemma goesOn_ne_ended (e : PauseEnd) : goesOn c false ≠ .ended e := by
  rw [goesOn]
  cases c.hasSender <;> nofun

/-- A pause that begins has noticed what was sent before, and goes on. -/
lemma look_begin (channel : Option CancelChannel) (channelFirst : Bool) :
    ∃ n, (begin channel).1.look (begin channel).2 false channelFirst =
      (n, channel.map CancelChannel.see) ∧ ∀ e, n ≠ .ended e := by
  cases channel with
  | none => exact ⟨.alone, rfl, nofun⟩
  | some c =>
    have hseen : watch c.see false channelFirst = (goesOn c.see false, c.see) := watch_of_seen rfl
    refine ⟨goesOn c.see false, ?_, goesOn_ne_ended⟩
    rw [begin, look, hseen]
    rfl

/-- A look at a pause whose time is not up does not find that it is. -/
lemma look_early (h : ∀ e, n ≠ .ended e) (channel : Option CancelChannel) (channelFirst : Bool) :
    (n.look channel false channelFirst).1 ≠ .ended .elapsed := by
  cases n with
  | ended e => exact absurd rfl (h e)
  | alone => nofun
  | watching =>
    cases channel with
    | none => nofun
    | some c =>
      rcases watch_cases c false channelFirst with ⟨hw, -⟩ | ⟨hn, -⟩
      · rw [look, hw]
        nofun
      · rw [look, hn]
        exact goesOn_ne_ended _

/-- A look at a pause whose time is up ends it. It ends early only if true was sent and not noticed before. -/
lemma look_over (h : ∀ e, n ≠ .ended e) (channel : Option CancelChannel) (channelFirst : Bool) :
    ∃ e, (n.look channel true channelFirst).1 = .ended e ∧
      ((n.look channel true channelFirst).2 = channel ∨
        (n.look channel true channelFirst).2 = channel.map CancelChannel.see) ∧
      (e = .cancelled → channelFirst = true ∧ ∃ c ∈ channel, c.isUnseen = true ∧ c.value = true) := by
  cases n with
  | ended e => exact absurd rfl (h e)
  | alone => exact ⟨.elapsed, rfl, .inl rfl, nofun⟩
  | watching =>
    cases channel with
    | none => exact ⟨.elapsed, rfl, .inl rfl, nofun⟩
    | some c =>
      rcases watch_cases c true channelFirst with ⟨hw, hunseen, hvalue, hfirst⟩ | ⟨hn, hc⟩
      · refine ⟨.cancelled, ?_, .inr ?_, fun _ => ⟨hfirst rfl, c, rfl, hunseen, hvalue⟩⟩
        · rw [look, hw]
        · rw [look, hw]
          rfl
      · refine ⟨.elapsed, hn, ?_, nofun⟩
        exact hc.imp (congrArg some) (congrArg some)

end Nap

end StoreLock
