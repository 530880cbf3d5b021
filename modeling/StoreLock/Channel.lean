import StoreLock.Lock.Call

/-!
# Channels and pauses

A caller asks a call to end by sending true over a channel. A pause of the call waits for its clock and for
its channel at once: it is looked at whenever one of them may have something to tell, and goes on until it has
ended or there is nothing left to be told. A pause that learns that nobody is left to send waits for its clock
alone from then on.
-/

namespace StoreLock

/-- Where a caller can ask a call to end. -/
structure CancelChannel where
  /-- What was sent last. -/
  value : Bool
  /-- Whether anyone is left to send. -/
  hasSender : Bool := true
  /-- Whether something was sent that no pause has taken notice of. -/
  isUnseen : Bool := false
deriving DecidableEq, Repr

/-- What a pause is told. -/
inductive News
  /-- Nothing yet. -/
  | quiet
  /-- The time is up. -/
  | elapsed
  /-- Something was sent. -/
  | sent
  /-- Nobody is left to send. -/
  | closed
deriving DecidableEq, Repr

/-- How far a pause has come. -/
inductive Nap
  /-- It waits for its clock and its channel. -/
  | watching
  /-- It waits for its clock alone. -/
  | alone
  | ended (how : PauseEnd)
deriving DecidableEq, Repr

namespace CancelChannel

/-- Sends a value, if anyone is left to send it. -/
def send (c : CancelChannel) (value : Bool) : CancelChannel :=
  if c.hasSender then { c with value, isUnseen := true } else c

/-- Leaves nobody to send. -/
def dropSender (c : CancelChannel) : CancelChannel :=
  { c with hasSender := false }

/-- Takes notice of what was sent. -/
def see (c : CancelChannel) : CancelChannel :=
  { c with isUnseen := false }

/-- What a pause is told that asks its clock and its channel in some order: the first that has something to
tell is heard. What was sent is told before that nobody is left to send. -/
def select (c : CancelChannel) (isOver channelFirst : Bool) : News :=
  if isOver && !channelFirst then .elapsed
  else if c.isUnseen then .sent
  else if !c.hasSender then .closed
  else if isOver then .elapsed
  else .quiet

theorem isUnseen_of_select {c : CancelChannel} {isOver channelFirst : Bool}
    (h : c.select isOver channelFirst = .sent) : c.isUnseen = true := by
  rw [select] at h
  cases hc : c.isUnseen with
  | true => rfl
  | false => cases isOver <;> cases channelFirst <;> cases hs : c.hasSender <;> simp [hc, hs] at h

end CancelChannel

namespace Nap

/-- A pause that waits for its clock alone. -/
def wait (isOver : Bool) : Nap :=
  if isOver then .ended .elapsed else .alone

/-- Goes on with a pause that waits for its clock and its channel until it has ended or nothing is left to be
told. A second turn finds nothing sent, and so the order does not matter to it. -/
def watch (c : CancelChannel) (isOver channelFirst : Bool) : Nap × CancelChannel :=
  match _ : c.select isOver channelFirst with
  | .quiet => (.watching, c)
  | .elapsed => (.ended .elapsed, c)
  | .closed => (.wait isOver, c)
  | .sent => if c.value then (.ended .cancelled, c.see) else watch c.see isOver channelFirst
termination_by c.isUnseen.toNat
decreasing_by
  rename_i h _
  rw [CancelChannel.isUnseen_of_select h]
  exact Nat.zero_lt_one

/-- The beginning of a pause, which takes notice of what was sent before. -/
def begin (channel : Option CancelChannel) : Nap × Option CancelChannel :=
  match channel with
  | none => (.alone, none)
  | some c => (.watching, some c.see)

/-- Looks at a pause. -/
def look (n : Nap) (channel : Option CancelChannel) (isOver channelFirst : Bool) :
    Nap × Option CancelChannel :=
  match n, channel with
  | .ended how, channel => (.ended how, channel)
  | .watching, some c =>
    let (n, c) := watch c isOver channelFirst
    (n, some c)
  | .watching, none => (.wait isOver, none)
  | .alone, channel => (.wait isOver, channel)

/-- How a pause has ended whose time is up. -/
def ending : Nap → PauseEnd
  | .ended how => how
  | .watching => .elapsed
  | .alone => .elapsed

end Nap

end StoreLock
