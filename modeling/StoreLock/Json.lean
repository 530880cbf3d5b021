import StoreLock.Text.Digit
import StoreLock.Text.Utf8

/-!
# JSON text

Reading the pieces of a JSON text from its bytes. A reader takes the bytes that are left and gives
a value with the bytes behind it. A value that nobody asks for is skipped by its grammar alone: its
strings are not decoded and its numbers may be of any size, and since open brackets are kept on a
list, it may be nested to any depth.
-/

namespace StoreLock.Json

/-- Bytes that are left to read. -/
abbrev Bytes := List UInt8

/-- The byte of an ASCII character. -/
def byte (c : Char) : UInt8 :=
  c.toNat.toUInt8

/-- Whether a byte is white space. -/
def isBlank (b : UInt8) : Bool :=
  b == byte ' ' || b == byte '\t' || b == byte '\n' || b == byte '\r'

/-- Drops white space. -/
def skipBlank (bs : Bytes) : Bytes :=
  bs.dropWhile isBlank

/-- Whether a byte is a decimal digit. -/
def isDigit (b : UInt8) : Bool :=
  byte '0' ≤ b && b ≤ byte '9'

/-- The value of four hexadecimal digits. -/
def unit? (a b c d : UInt8) : Option Nat :=
  Text.hexNumber? ([a, b, c, d].map Char.ofUInt8)

/-- What an escape of one letter stands for. -/
def escaped? (b : UInt8) : Option UInt8 :=
  if b = byte '"' ∨ b = byte '\\' ∨ b = byte '/' then some b
  else if b = byte 'b' then some 8
  else if b = byte 'f' then some 12
  else if b = byte 'n' then some 10
  else if b = byte 'r' then some 13
  else if b = byte 't' then some 9
  else none

/-- The bytes of the character with a code point. -/
def utf8 (codePoint : Nat) : Bytes :=
  Text.toUtf8 (Char.ofNat codePoint).toString

/-- Puts bytes in front of what was read. -/
def prepend (value : Bytes) (read : Option (Bytes × Bytes)) : Option (Bytes × Bytes) :=
  read.map fun p => (value ++ p.1, p.2)

/-- Reads on inside a string, up to its closing quote, and gives the bytes it stands for. Escapes of
surrogates have to come in pairs. -/
def readStringBytes : Bytes → Option (Bytes × Bytes)
  | [] => none
  | b :: rest =>
    if b = byte '"' then some ([], rest)
    else if b < 0x20 then none
    else if b ≠ byte '\\' then prepend [b] (readStringBytes rest)
    else
      match rest with
      | [] => none
      | e :: rest =>
        if e ≠ byte 'u' then
          match escaped? e with
          | some b => prepend [b] (readStringBytes rest)
          | none => none
        else
          match rest with
          | h₁ :: h₂ :: h₃ :: h₄ :: rest =>
            match unit? h₁ h₂ h₃ h₄ with
            | none => none
            | some high =>
              if high < 0xD800 ∨ 0xDFFF < high then
                prepend (utf8 high) (readStringBytes rest)
              else if 0xDC00 ≤ high then none
              else
                match rest with
                | s :: u :: l₁ :: l₂ :: l₃ :: l₄ :: rest =>
                  if s = byte '\\' ∧ u = byte 'u' then
                    match unit? l₁ l₂ l₃ l₄ with
                    | none => none
                    | some low =>
                      if 0xDC00 ≤ low ∧ low ≤ 0xDFFF then
                        prepend (utf8 (0x10000 + (high - 0xD800) * 0x400 + (low - 0xDC00)))
                          (readStringBytes rest)
                      else none
                  else none
                | _ => none
          | _ => none

/-- Reads a string. -/
def readString (bs : Bytes) : Option (String × Bytes) :=
  match skipBlank bs with
  | [] => none
  | b :: rest =>
    if b = byte '"' then
      match readStringBytes rest with
      | none => none
      | some (value, rest) => (Text.ofUtf8? value).map fun s => (s, rest)
    else none

/-- Reads one given byte, after white space. -/
def readMark (c : Char) (bs : Bytes) : Option Bytes :=
  match skipBlank bs with
  | [] => none
  | b :: rest => if b = byte c then some rest else none

/-- Reads a word such as `null` where it is due. -/
def readWord : List Char → Bytes → Option Bytes
  | [], bs => some bs
  | c :: word, b :: bs => if b = byte c then readWord word bs else none
  | _ :: _, [] => none

/-- The number that digits write. -/
def number (digits : Bytes) : Nat :=
  Text.number (digits.map Char.ofUInt8)

/-- Reads a whole number of 64 bits: no sign, no zeros in front, no fraction, no exponent. -/
def readUInt64 (bs : Bytes) : Option (UInt64 × Bytes) :=
  let digits := (skipBlank bs).takeWhile isDigit
  let rest := (skipBlank bs).dropWhile isDigit
  if digits = [] ∨ (digits.head? = some (byte '0') ∧ digits.length ≠ 1) then none
  else if rest.head? = some (byte '.') ∨ rest.head? = some (byte 'e') ∨
      rest.head? = some (byte 'E') then none
  else if number digits < UInt64.size then some ((number digits).toUInt64, rest)
  else none

/-- Skips on inside a string, up to its closing quote. -/
def skipString : Bytes → Option Bytes
  | [] => none
  | b :: rest =>
    if b = byte '"' then some rest
    else if b < 0x20 then none
    else if b ≠ byte '\\' then skipString rest
    else
      match rest with
      | [] => none
      | e :: rest =>
        if e ≠ byte 'u' then
          if (escaped? e).isSome then skipString rest else none
        else
          match rest with
          | h₁ :: h₂ :: h₃ :: h₄ :: rest =>
            if (unit? h₁ h₂ h₃ h₄).isSome then skipString rest else none
          | _ => none

/-- Skips digits, of which there has to be one. -/
def skipDigits (bs : Bytes) : Option Bytes :=
  match bs with
  | [] => none
  | b :: rest => if isDigit b then some (rest.dropWhile isDigit) else none

/-- Skips the whole part of a number: a zero alone, or digits that start with none. -/
def skipWhole (bs : Bytes) : Option Bytes :=
  match bs with
  | [] => none
  | b :: rest =>
    if b = byte '0' then
      if (rest.head?.map isDigit).getD false then none else some rest
    else skipDigits bs

/-- Skips the fraction of a number, if it has one. -/
def skipFraction (bs : Bytes) : Option Bytes :=
  match bs with
  | [] => some []
  | b :: rest => if b = byte '.' then skipDigits rest else some bs

/-- Skips the exponent of a number, if it has one. -/
def skipExponent (bs : Bytes) : Option Bytes :=
  match bs with
  | [] => some []
  | b :: rest =>
    if b = byte 'e' ∨ b = byte 'E' then
      match rest with
      | [] => none
      | s :: digits => if s = byte '+' ∨ s = byte '-' then skipDigits digits else skipDigits rest
    else some bs

/-- Skips a number behind its sign. -/
def skipNumber (bs : Bytes) : Option Bytes :=
  ((skipWhole bs).bind skipFraction).bind skipExponent

/-- Skips a value that is not an array or an object. -/
def skipScalar (bs : Bytes) : Option Bytes :=
  match bs with
  | [] => none
  | b :: rest =>
    if b = byte '"' then skipString rest
    else if b = byte '-' then skipNumber rest
    else if b = byte 'n' then readWord ['u', 'l', 'l'] rest
    else if b = byte 't' then readWord ['r', 'u', 'e'] rest
    else if b = byte 'f' then readWord ['a', 'l', 's', 'e'] rest
    else skipNumber bs

/-- An open bracket. -/
inductive Bracket
  | array
  | object
deriving DecidableEq, Repr

/-- The byte that closes a bracket. -/
def Bracket.close : Bracket → UInt8
  | .array => byte ']'
  | .object => byte '}'

/-- Skips what stands in front of the next value inside a bracket: a key in an object. -/
def skipKey (bracket : Bracket) (bs : Bytes) : Option Bytes :=
  match bracket with
  | .array => some bs
  | .object => ((readMark '"' bs).bind skipString).bind (readMark ':')

/-- What may come next where values are skipped. -/
inductive Expect
  /-- A value. -/
  | value
  /-- The first element of the innermost bracket, or its end. -/
  | first
  /-- The end of the innermost bracket, or a comma. -/
  | next
deriving DecidableEq, Repr

/-- Skips to the end of the outermost value; every step takes at least one byte or a bracket, of
which `fuel` bounds how many. -/
def skipNested : (fuel : Nat) → Expect → List Bracket → Bytes → Option Bytes
  | 0, _, _, _ => none
  | fuel + 1, .value, brackets, bs =>
    match skipBlank bs with
    | [] => none
    | b :: rest =>
      if b = byte '[' then skipNested fuel .first (.array :: brackets) rest
      else if b = byte '{' then skipNested fuel .first (.object :: brackets) rest
      else (skipScalar (b :: rest)).bind (skipNested fuel .next brackets)
  | _ + 1, .first, [], _ => none
  | fuel + 1, .first, bracket :: brackets, bs =>
    match skipBlank bs with
    | [] => none
    | b :: rest =>
      if b = bracket.close then skipNested fuel .next brackets rest
      else (skipKey bracket (b :: rest)).bind (skipNested fuel .value (bracket :: brackets))
  | _ + 1, .next, [], bs => some bs
  | fuel + 1, .next, bracket :: brackets, bs =>
    match skipBlank bs with
    | [] => none
    | b :: rest =>
      if b = bracket.close then skipNested fuel .next brackets rest
      else if b = byte ',' then
        (skipKey bracket rest).bind (skipNested fuel .value (bracket :: brackets))
      else none

/-- Skips a value. -/
def skipValue (bs : Bytes) : Option Bytes :=
  skipNested (2 * bs.length + 2) .value [] bs

/-- Reads the members of an object whose bracket is open. Each value is read by `member`, which
gets what was read so far and the key; `fuel` bounds the number of members. -/
def readMembers {α : Type} (member : α → String → Bytes → Option (α × Bytes)) :
    (fuel : Nat) → α → Bytes → Option (α × Bytes)
  | 0, _, _ => none
  | fuel + 1, soFar, bs => do
    let (key, rest) ← readString bs
    let rest ← readMark ':' rest
    let (soFar, rest) ← member soFar key rest
    match skipBlank rest with
    | [] => none
    | b :: rest =>
      if b = byte ',' then readMembers member fuel soFar rest
      else if b = byte '}' then some (soFar, rest)
      else none

/-- Reads an object or an array whose elements stand for the members of the given keys in turn. -/
def readRecord {α : Type} (keys : List String) (member : α → String → Bytes → Option (α × Bytes))
    (empty : α) (bs : Bytes) : Option (α × Bytes) :=
  match skipBlank bs with
  | [] => none
  | b :: rest =>
    if b = byte '{' then
      match readMark '}' rest with
      | some rest => some (empty, rest)
      | none => readMembers member rest.length empty rest
    else if b = byte '[' then
      readElements keys empty rest true
    else none
where
  /-- Reads one element for each key, and the closing bracket. -/
  readElements : List String → α → Bytes → Bool → Option (α × Bytes)
    | [], soFar, bs, _ => (readMark ']' bs).map fun rest => (soFar, rest)
    | key :: keys, soFar, bs, isFirst => do
      let bs ← if isFirst then some bs else readMark ',' bs
      let (soFar, bs) ← member soFar key bs
      readElements keys soFar bs false

/-- The value of a whole text, in which nothing but white space may follow it. -/
def readDocument {α : Type} (read : Bytes → Option (α × Bytes)) (bs : Bytes) : Option α :=
  match read bs with
  | none => none
  | some (value, rest) => if (skipBlank rest).isEmpty then some value else none

end StoreLock.Json
