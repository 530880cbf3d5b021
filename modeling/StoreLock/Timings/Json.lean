import StoreLock.Json
import StoreLock.Sequencer
import StoreLock.Timings.Draft

/-!
# Timings and strategies in JSON

Timings are an object with three members, or an array of their values; a strategy is its name.
Nothing else may stand in either, and reading does not check the timings.
-/

namespace StoreLock

namespace Timings

/-- The timings as a JSON object. -/
def json (t : Timings) : String :=
  "\x7b\"timeout\":\"" ++ t.timeout.human ++ "\",\"polling\":\"" ++ t.polling.human ++
    "\",\"settling\":\"" ++ t.settling.human ++ "\"\x7d"

/-- Reads the value of one member. -/
def Draft.member (d : Draft) (key : String) (bs : Json.Bytes) : Option (Draft × Json.Bytes) :=
  match Json.readString bs with
  | none => none
  | some (text, rest) => (d.put key text).map fun d => (d, rest)

/-- The timings that a JSON text holds; they are not checked. -/
def ofJson? (source : String) : Option Timings :=
  (Json.readDocument (Json.readRecord keys Draft.member {}) (Text.toUtf8 source)).bind
    Draft.finish

end Timings

namespace Strategy

/-- The name of a strategy. -/
def name : Strategy → String
  | .timestamp => "timestamp"
  | .counter => "counter"

/-- The strategy with this name. -/
def ofName? (name : String) : Option Strategy :=
  if name = "timestamp" then some .timestamp
  else if name = "counter" then some .counter
  else none

/-- The strategy as a JSON text. -/
def json (s : Strategy) : String :=
  "\"" ++ s.name ++ "\""

/-- Reads a strategy: its name, or an object that gives its name the value `null`. -/
def readJson (bs : Json.Bytes) : Option (Strategy × Json.Bytes) :=
  match Json.readMark '{' bs with
  | none => do
    let (name, rest) ← Json.readString bs
    let s ← ofName? name
    some (s, rest)
  | some rest => do
    let (name, rest) ← Json.readString rest
    let s ← ofName? name
    let rest ← Json.readMark ':' rest
    let rest ← Json.readWord ['n', 'u', 'l', 'l'] (Json.skipBlank rest)
    let rest ← Json.readMark '}' rest
    some (s, rest)

/-- The strategy that a JSON text holds. -/
def ofJson? (source : String) : Option Strategy :=
  Json.readDocument readJson (Text.toUtf8 source)

end Strategy

end StoreLock
