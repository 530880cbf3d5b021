import StoreLock.Duration.Human
import StoreLock.Timings

/-!
# Timings from text

Timings are written as three members, each a duration for people. Every member has to come exactly
once, and no other may come.
-/

namespace StoreLock.Timings

/-- The members of timings that have been read. -/
structure Draft where
  timeout : Option Duration := none
  polling : Option Duration := none
  settling : Option Duration := none

/-- The names of the members, in the order in which they are written. -/
def keys : List String := ["timeout", "polling", "settling"]

/-- Takes up a member. Unknown and repeated ones are refused, and so is a text that is no
duration. -/
def Draft.put (d : Draft) (key text : String) : Option Draft :=
  match Duration.ofHuman? text with
  | none => none
  | some value =>
    if key = "timeout" then
      if d.timeout.isSome then none else some { d with timeout := some value }
    else if key = "polling" then
      if d.polling.isSome then none else some { d with polling := some value }
    else if key = "settling" then
      if d.settling.isSome then none else some { d with settling := some value }
    else none

/-- The timings, once all members have been read. -/
def Draft.finish (d : Draft) : Option Timings :=
  match d.timeout, d.polling, d.settling with
  | some timeout, some polling, some settling => some ⟨timeout, polling, settling⟩
  | _, _, _ => none

end StoreLock.Timings
