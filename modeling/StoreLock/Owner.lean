import StoreLock.Error
import StoreLock.Text.Digit

/-!
# Owners

An owner id tells whose entry is whose. Only ASCII letters, digits and `-` are allowed in it, so the
separator of an entry name never occurs inside one.
-/

namespace StoreLock

/-- Identity of one contender for a lock. -/
structure OwnerId where
  /-- The id as it stands in entry names. -/
  text : String
deriving DecidableEq, Repr

namespace OwnerId

/-- The most bytes an id may have. -/
def maxLength : Nat := 128

/-- Whether a character may stand in an id. -/
def allows (c : Char) : Bool :=
  c.isAlphanum || c == '-'

/-- Whether a text is an id: 1 to 128 bytes, all of them allowed characters. -/
def accepts (text : String) : Bool :=
  !text.isEmpty && decide (text.utf8ByteSize ≤ maxLength) && text.toList.all allows

/-- The id with this text, if it is one. -/
def ofText (text : String) : Except LockError OwnerId :=
  if accepts text then
    .ok ⟨text⟩
  else
    .error (.invalidName ("owner id '" ++ text ++ "' must be 1-128 characters of [A-Za-z0-9-]"))

/-- The id of the lock with number `index` made under this instance token. -/
def child (token : OwnerId) (index : UInt64) : OwnerId :=
  ⟨token.text ++ "-" ++ index.toNat.repr⟩

/-- The instance token drawn from 128 random bits: 32 hexadecimal digits, of which the thirteenth
tells the version, 4, and the two highest bits of the seventeenth the variant. -/
def ofRandom (bits : BitVec 128) : OwnerId :=
  let digit (i : Nat) : Nat :=
    let d := (bits >>> (4 * (31 - i))).toNat % 16
    if i = 12 then 4 else if i = 16 then 8 + d % 4 else d
  ⟨String.ofList ((List.range 32).map fun i => Text.hexDigit (digit i))⟩

end OwnerId

end StoreLock
