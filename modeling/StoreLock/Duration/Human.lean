import StoreLock.Text.Classes
import StoreLock.Text.Digit
import StoreLock.Time

/-!
# Durations for people

A length of time written as numbers with units, such as `1h 30m`. Writing takes the largest units
first and leaves out those that are zero; reading adds up any numbers with any units, in which a
month and a year have their mean lengths. All arithmetic of the reader stays within 64 bits.
-/

namespace StoreLock.Duration

/-- A unit of time. -/
inductive TimeUnit
  | nanosecond
  | microsecond
  | millisecond
  | second
  | minute
  | hour
  | day
  | week
  | month
  | year
deriving DecidableEq, Repr

namespace TimeUnit

/-- The unit with this name, in any of its spellings. -/
def ofName? (name : String) : Option TimeUnit :=
  if name ∈ ["nanos", "nsec", "ns"] then some .nanosecond
  else if name ∈ ["usec", "us", "µs"] then some .microsecond
  else if name ∈ ["millis", "msec", "ms"] then some .millisecond
  else if name ∈ ["seconds", "second", "secs", "sec", "s"] then some .second
  else if name ∈ ["minutes", "minute", "min", "mins", "m"] then some .minute
  else if name ∈ ["hours", "hour", "hr", "hrs", "h"] then some .hour
  else if name ∈ ["days", "day", "d"] then some .day
  else if name ∈ ["weeks", "week", "wk", "wks", "w"] then some .week
  else if name ∈ ["months", "month", "M"] then some .month
  else if name ∈ ["years", "year", "yr", "yrs", "y"] then some .year
  else none

/-- The length of the unit. -/
def length : TimeUnit → Duration
  | .nanosecond => 1
  | .microsecond => 1000
  | .millisecond => 1000000
  | .second => ofParts 1 0
  | .minute => ofParts 60 0
  | .hour => ofParts 3600 0
  | .day => ofParts 86400 0
  | .week => ofParts 604800 0
  | .month => ofParts 2630016 0
  | .year => ofParts 31557600 0

/-- What a whole number of this unit is counted in. -/
def wholeGrain (u : TimeUnit) : Duration :=
  if u.length < ofParts 1 0 then 1 else ofParts 1 0

/-- What a fraction of this unit is counted in; a nanosecond has no fractions. -/
def fractionGrain : TimeUnit → Option Duration
  | .nanosecond => none
  | .microsecond | .millisecond | .second | .minute => some 1
  | .hour | .day | .week | .month | .year => some (ofParts 1 0)

/-- A number of this unit as it is written. -/
def label (u : TimeUnit) (n : Nat) : String :=
  let counted (one : String) := n.repr ++ one ++ if n = 1 then "" else "s"
  match u with
  | .nanosecond => n.repr ++ "ns"
  | .microsecond => n.repr ++ "us"
  | .millisecond => n.repr ++ "ms"
  | .second => n.repr ++ "s"
  | .minute => n.repr ++ "m"
  | .hour => n.repr ++ "h"
  | .day => counted "day"
  | .week => counted "week"
  | .month => counted "month"
  | .year => counted "year"

/-- The units that are written, largest first. -/
def written : List TimeUnit :=
  [.year, .month, .day, .hour, .minute, .second, .millisecond, .microsecond, .nanosecond]

end TimeUnit

/-- A length split over units, each taking what it can of what is left; zeros are left out. -/
def split : List TimeUnit → Duration → List (Nat × TimeUnit)
  | [], _ => []
  | u :: units, d =>
    let rest := split units (d % u.length)
    if d / u.length = 0 then rest else (d / u.length, u) :: rest

/-- A length as it is written for people. -/
def human (d : Duration) : String :=
  if d = 0 then "0s"
  else " ".intercalate ((split TimeUnit.written d).map fun p => p.2.label p.1)

/-- A number, if it can be held in 64 bits. -/
def within64 (n : Nat) : Option Nat :=
  if n < UInt64.size then some n else none

/-- Whether a character may stand in the name of a unit. -/
def isUnitChar (c : Char) : Bool :=
  c.isAlpha || c == 'µ'

/-- Reads on in a whole number that stands at `n`, white space between the digits included, up to
where a unit or a point begins. -/
def readWhole (n : Nat) : List Char → Option (Nat × List Char)
  | [] => some (n, [])
  | c :: rest =>
    if c.isDigit then
      match within64 (10 * n + Text.digitValue c) with
      | some n => readWhole n rest
      | none => none
    else if Text.isBlank c then readWhole n rest
    else if isUnitChar c || c == '.' then some (n, c :: rest)
    else none

/-- Reads on in the digits behind a point that stand at `num / den`, up to where a unit begins. -/
def readFraction (num den : Nat) : List Char → Option ((Nat × Nat) × List Char)
  | [] => some ((num, den), [])
  | c :: rest =>
    if c.isDigit then
      match within64 (10 * num + Text.digitValue c), within64 (10 * den) with
      | some num, some den => readFraction num den rest
      | _, _ => none
    else if Text.isBlank c then readFraction num den rest
    else if isUnitChar c then some ((num, den), c :: rest)
    else none

/-- Reads the fraction that a point announces; a point without digits is refused. -/
def readPoint : List Char → Option (Option (Nat × Nat) × List Char)
  | '.' :: rest =>
    match readFraction 0 1 rest with
    | some ((num, den), rest) => if den = 1 then none else some (some (num, den), rest)
    | none => none
  | rest => some (none, rest)

/-- Reads the name of a unit, up to white space, a digit or the end. -/
def readUnit : List Char → Option (List Char × List Char)
  | [] => some ([], [])
  | c :: rest =>
    if isUnitChar c then (readUnit rest).map fun p => (c :: p.1, p.2)
    else if c.isDigit || Text.isBlank c then some ([], c :: rest)
    else none

/-- Adds a number of grains to a total. Nanoseconds are added to those beside the whole seconds of
the total; their sum and the seconds of the new total have to fit in 64 bits. -/
def addGrains (total : Duration) (n : Nat) (grain : Duration) : Option Duration :=
  if (grain = 1 → total.subsecNanos + n < UInt64.size) ∧ (total + n * grain).secs < UInt64.size then
    some (total + n * grain)
  else none

/-- Adds a whole number of a unit to a total. -/
def addWhole (total : Duration) (n : Nat) (u : TimeUnit) : Option Duration :=
  match within64 (n * (u.length / u.wholeGrain)) with
  | some grains => addGrains total grains u.wholeGrain
  | none => none

/-- Adds a fraction of a unit to a total; it has to be a whole number of grains. -/
def addFraction (total : Duration) (num den : Nat) (u : TimeUnit) : Option Duration :=
  match u.fractionGrain with
  | none => none
  | some grain =>
    match within64 (num * (u.length / grain)) with
    | some product => if product % den = 0 then addGrains total (product / den) grain else none
    | none => none

/-- Adds a number with its unit to a total. -/
def addSpan (total : Duration) (n : Nat) (fraction : Option (Nat × Nat)) (u : TimeUnit) :
    Option Duration :=
  match addWhole total n u with
  | none => none
  | some total =>
    match fraction with
    | none => some total
    | some (num, den) => addFraction total num den u

/-- Reads numbers with units, of which `fuel` bounds how many, and adds them to a total. -/
def readSpans : (fuel : Nat) → Duration → List Char → Option Duration
  | 0, _, _ => none
  | fuel + 1, total, cs =>
    match cs.dropWhile Text.isBlank with
    | [] => none
    | c :: rest =>
      if c.isDigit then do
        let (n, rest) ← readWhole (Text.digitValue c) rest
        let (fraction, rest) ← readPoint rest
        let (name, rest) ← readUnit rest
        let u ← TimeUnit.ofName? (String.ofList name)
        let total ← addSpan total n fraction u
        if (rest.dropWhile Text.isBlank).isEmpty then some total
        else readSpans fuel total rest
      else none

/-- The length that a text written for people tells. -/
def ofHuman? (s : String) : Option Duration :=
  if s = "0" then some 0 else readSpans s.length 0 s.toList

end StoreLock.Duration
