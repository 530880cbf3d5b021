import StoreLock.Time

/-!
# Short durations

A length of time as one decimal number with the largest of the units `s`, `ms`, `µs` and `ns` in
which its whole part is not zero.
-/

namespace StoreLock.Duration

/-- The digits of `part / 10 ^ places` behind the point, without zeros at the end. -/
def fraction : (places : Nat) → Nat → List Char
  | 0, _ => []
  | places + 1, part =>
    if part = 0 then []
    else Char.ofNat ('0'.toNat + part / Nat.pow 10 places) :: fraction places (part % Nat.pow 10 places)

/-- A length in a unit of `10 ^ places` nanoseconds. -/
def inUnit (d : Duration) (places : Nat) (unit : String) : String :=
  let whole := (d / Nat.pow 10 places).repr
  match fraction places (d % Nat.pow 10 places) with
  | [] => whole ++ unit
  | digits => whole ++ "." ++ String.ofList digits ++ unit

/-- The short form of a length. -/
def short (d : Duration) : String :=
  if Nat.pow 10 9 ≤ d then d.inUnit 9 "s"
  else if Nat.pow 10 6 ≤ d then d.inUnit 6 "ms"
  else if Nat.pow 10 3 ≤ d then d.inUnit 3 "µs"
  else d.inUnit 0 "ns"

end StoreLock.Duration
