import StoreLock.Json

/-!
# Markers

What is written into the object of an entry: a JSON object with the owner, the sequence and the
creator's wall clock. Only the object's name takes part in the protocol; the marker is for people
who look into the store. Reading ignores members it does not know.
-/

namespace StoreLock

/-- The contents of an entry's object. -/
structure Marker where
  /-- Who made the entry. -/
  owner : String
  /-- The sequence of the entry. -/
  sequence : UInt64
  /-- The creator's wall clock, for information only. -/
  createdAtMs : UInt64
deriving DecidableEq, Repr

namespace Marker

/-- A character inside a quoted text. -/
def quoteChar (c : Char) : List Char :=
  if c = '"' then ['\\', '"']
  else if c = '\\' then ['\\', '\\']
  else if c = '\x08' then ['\\', 'b']
  else if c = '\x0c' then ['\\', 'f']
  else if c = '\n' then ['\\', 'n']
  else if c = '\r' then ['\\', 'r']
  else if c = '\t' then ['\\', 't']
  else if c.toNat < 0x20 then
    ['\\', 'u', '0', '0', Text.hexDigit (c.toNat / 16), Text.hexDigit (c.toNat % 16)]
  else [c]

/-- A text in quotes. -/
def quote (s : String) : String :=
  String.ofList ('"' :: s.toList.flatMap quoteChar ++ ['"'])

/-- The marker as text. -/
def text (m : Marker) : String :=
  "\x7b\"owner\":" ++ quote m.owner ++ ",\"sequence\":" ++ m.sequence.toNat.repr ++
    ",\"createdAtMs\":" ++ m.createdAtMs.toNat.repr ++ "\x7d"

/-- The marker as it stands in the object. -/
def contents (m : Marker) : ByteArray :=
  m.text.toUTF8

/-- The members of a marker that have been read. -/
structure Draft where
  owner : Option String := none
  sequence : Option UInt64 := none
  createdAtMs : Option UInt64 := none

/-- Reads the value of one member; a known one may come once. -/
def Draft.member (d : Draft) (key : String) (bs : Json.Bytes) : Option (Draft × Json.Bytes) :=
  if key = "owner" then
    if d.owner.isSome then none
    else (Json.readString bs).map fun p => ({ d with owner := some p.1 }, p.2)
  else if key = "sequence" then
    if d.sequence.isSome then none
    else (Json.readUInt64 bs).map fun p => ({ d with sequence := some p.1 }, p.2)
  else if key = "createdAtMs" then
    if d.createdAtMs.isSome then none
    else (Json.readUInt64 bs).map fun p => ({ d with createdAtMs := some p.1 }, p.2)
  else (Json.skipValue bs).map fun rest => (d, rest)

/-- The marker, once all members have been read. -/
def Draft.finish (d : Draft) : Option Marker :=
  match d.owner, d.sequence, d.createdAtMs with
  | some owner, some sequence, some createdAtMs => some ⟨owner, sequence, createdAtMs⟩
  | _, _, _ => none

/-- The marker that an object holds, if it holds one. -/
def ofContents? (contents : ByteArray) : Option Marker :=
  (Json.readDocument (Json.readRecord ["owner", "sequence", "createdAtMs"] Draft.member {})
    contents.data.toList).bind Draft.finish

end Marker

end StoreLock
