import StoreLock.Owner
import StoreLock.Text.Digit
import StoreLock.Text.Escaped
import StoreLock.Text.Split

/-!
# Entries

Every attempt to take a lock is one marker object, named by the lock prefix, a sequence of twenty
decimal digits and the owner, with `_` between them. The width is that of the largest sequence, so
names of one prefix stand in the order of their sequences and owners, and the owner holds no `_`, so
a name is read from its end.
-/

namespace StoreLock

/-- One marker object in the store. -/
structure Entry where
  /-- The lock the entry competes for. -/
  lockPrefix : String
  /-- Smaller sequences are older requests. -/
  sequence : UInt64
  /-- Who made the entry. -/
  owner : OwnerId
deriving DecidableEq, Repr

namespace Entry

/-- What stands between prefix, sequence and owner. -/
def separator : Char := '_'

/-- How many digits a sequence is written with. -/
def sequenceWidth : Nat := 20

/-- The name of the entry's object in the store. -/
def name (e : Entry) : String :=
  e.lockPrefix ++ separator.toString ++
    String.ofList (Text.padded sequenceWidth e.sequence.toNat) ++ separator.toString ++ e.owner.text

/-- What every entry name of a lock starts with. Its separator keeps the entries of `locks/config`
apart from those of `locks/configuration`. -/
def listing (lockPrefix : String) : String :=
  lockPrefix ++ separator.toString

/-- Why a name is not that of an entry. -/
inductive Fault
  | noOwner
  | noSequence
  | emptyPrefix
  | badSequence
  | sequenceOutOfRange
  | invalidOwner
deriving DecidableEq, Repr

/-- The fault in words. -/
def Fault.reason : Fault → String
  | .noOwner => "missing owner separator"
  | .noSequence => "missing sequence separator"
  | .emptyPrefix => "empty prefix"
  | .badSequence => "sequence is not a 20 digit number"
  | .sequenceOutOfRange => "sequence out of range"
  | .invalidOwner => "invalid owner id"

/-- A name under a lock prefix that is not that of an entry. -/
structure Malformed where
  /-- The name. -/
  name : String
  /-- What is wrong with it. -/
  fault : Fault
deriving DecidableEq, Repr

/-- The refusal as it is shown. -/
def Malformed.message (m : Malformed) : String :=
  "malformed lock entry '" ++ m.name ++ "': " ++ m.fault.reason

/-- The entry with this name, or what is wrong with the name. -/
def read (name : String) : Except Fault Entry :=
  match Text.splitLast separator name.toList with
  | none => .error .noOwner
  | some (rest, owner) =>
    match Text.splitLast separator rest with
    | none => .error .noSequence
    | some (lockPrefix, digits) =>
      if lockPrefix.isEmpty then .error .emptyPrefix
      else if digits.length ≠ sequenceWidth ∨ ¬ digits.all Char.isDigit then .error .badSequence
      else if UInt64.size ≤ Text.number digits then .error .sequenceOutOfRange
      else if OwnerId.accepts (String.ofList owner) then
        .ok ⟨String.ofList lockPrefix, (Text.number digits).toUInt64, ⟨String.ofList owner⟩⟩
      else .error .invalidOwner

/-- The entry with this name, if it is the name of one. -/
def ofName (name : String) : Except Malformed Entry :=
  (read name).mapError (Malformed.mk name)

/-- The order of entries: by prefix, then by sequence, then by owner. -/
instance : Ord Entry where
  compare a b := (compare a.lockPrefix b.lockPrefix).then <|
    (compare a.sequence b.sequence).then (compare a.owner.text b.owner.text)

/-- Whether one entry comes no later than another. -/
def le (a b : Entry) : Bool :=
  (compare a b).isLE

/-- Entries in their order. -/
def sort (entries : List Entry) : List Entry :=
  entries.mergeSort le

end Entry

/-- Why a text cannot be a lock prefix. -/
inductive PrefixFault
  | empty
  | tooLong
  | control (lockPrefix : String)
deriving DecidableEq, Repr

namespace PrefixFault

/-- The most bytes a lock prefix may have. -/
def maxLength : Nat := 512

/-- The fault in words. -/
def detail : PrefixFault → String
  | .empty => "lock prefix cannot be empty"
  | .tooLong => "lock prefix is longer than " ++ maxLength.repr ++ " bytes"
  | .control lockPrefix =>
    "lock prefix '" ++ Text.escape lockPrefix ++ "' contains control characters"

/-- The first fault of a lock prefix, if it has one. -/
def find? (lockPrefix : String) : Option PrefixFault :=
  if lockPrefix.isEmpty then some .empty
  else if maxLength < lockPrefix.utf8ByteSize then some .tooLong
  else if lockPrefix.toList.any Text.isControl then some (.control lockPrefix)
  else none

end PrefixFault

/-- Checks that a text can be a lock prefix. -/
def checkPrefix (lockPrefix : String) : Except LockError Unit :=
  match PrefixFault.find? lockPrefix with
  | some fault => .error (.invalidName fault.detail)
  | none => .ok ()

end StoreLock
