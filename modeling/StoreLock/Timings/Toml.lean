import StoreLock.Timings.Draft

/-!
# Timings in TOML

A TOML document of nothing but top-level keys with strings, as timings are written. All four forms
of strings, quoted keys, comments, a byte-order mark and both line ends are read; whatever would
make another table, another kind of value or a dotted key is refused, since no timings hold it.
-/

namespace StoreLock.Timings

/-- The timings as a TOML document. -/
def toml (t : Timings) : String :=
  "timeout = \"" ++ t.timeout.human ++ "\"\npolling = \"" ++ t.polling.human ++
    "\"\nsettling = \"" ++ t.settling.human ++ "\"\n"

namespace Toml

/-- Whether a character is white space within a line. -/
def isBlank (c : Char) : Bool :=
  c == ' ' || c == '\t'

/-- Whether a character may stand in a comment or, apart from quotes and escapes, in a string. -/
def isPlain (c : Char) : Bool :=
  c == '\t' || (0x20 ≤ c.toNat && c.toNat != 0x7F)

/-- Whether a character may stand in a key without quotes. -/
def isBareKey (c : Char) : Bool :=
  c.isAlphanum || c == '-' || c == '_'

/-- The text behind a line end, if one is due. -/
def lineEnd? : List Char → Option (List Char)
  | '\n' :: rest => some rest
  | '\r' :: '\n' :: rest => some rest
  | _ => none

/-- The character that `width` hexadecimal digits tell, and the text behind them. -/
def codePoint? (width : Nat) (cs : List Char) : Option (Char × List Char) :=
  if cs.length < width then none
  else
    match Text.hexNumber? (cs.take width) with
    | none => none
    | some n => if n.isValidChar then some (Char.ofNat n, cs.drop width) else none

/-- The character that an escape behind its backslash stands for, and the text behind it. -/
def escape? : List Char → Option (Char × List Char)
  | 'b' :: rest => some ('\x08', rest)
  | 't' :: rest => some ('\t', rest)
  | 'n' :: rest => some ('\n', rest)
  | 'f' :: rest => some ('\x0c', rest)
  | 'r' :: rest => some ('\r', rest)
  | '"' :: rest => some ('"', rest)
  | '\\' :: rest => some ('\\', rest)
  | 'u' :: rest => codePoint? 4 rest
  | 'U' :: rest => codePoint? 8 rest
  | _ => none

/-- Puts a character in front of what was read. -/
def prepend (c : Char) (read : Option (List Char × List Char)) : Option (List Char × List Char) :=
  read.map fun p => (c :: p.1, p.2)

/-- Reads on in a string in double quotes. -/
def readBasic : (fuel : Nat) → List Char → Option (List Char × List Char)
  | 0, _ => none
  | _ + 1, [] => none
  | fuel + 1, c :: rest =>
    if c = '"' then some ([], rest)
    else if c = '\\' then
      match escape? rest with
      | none => none
      | some (c, rest) => prepend c (readBasic fuel rest)
    else if isPlain c then prepend c (readBasic fuel rest)
    else none

/-- Reads on in a string in single quotes. -/
def readLiteral : List Char → Option (List Char × List Char)
  | [] => none
  | c :: rest =>
    if c = '\'' then some ([], rest)
    else if isPlain c then prepend c (readLiteral rest)
    else none

/-- Drops white space and line ends. -/
def skipLines : (fuel : Nat) → List Char → List Char
  | 0, cs => cs
  | fuel + 1, cs =>
    match lineEnd? cs with
    | some rest => skipLines fuel rest
    | none =>
      match cs with
      | c :: rest => if isBlank c then skipLines fuel rest else cs
      | [] => []

/-- The text behind quotes that end a string of many lines, with the quotes that still belong to it;
`none` where the quotes at hand do not end it. -/
def closing? (quote : Char) (cs : List Char) : Option (List Char × List Char) :=
  let quotes := cs.takeWhile (· == quote)
  if quotes.length < 3 then none
  else some ((quotes.take 5).drop 3, cs.drop (min 5 quotes.length))

/-- Reads on in a string of many lines. In double quotes a backslash at the end of a line drops the
white space up to the next character, in single quotes a backslash is a character. -/
def readLong (quote : Char) : (fuel : Nat) → List Char → Option (List Char × List Char)
  | 0, _ => none
  | _ + 1, [] => none
  | fuel + 1, c :: rest =>
    match closing? quote (c :: rest), lineEnd? (c :: rest) with
    | some read, _ => some read
    | none, some rest => prepend '\n' (readLong quote fuel rest)
    | none, none =>
      if c = '\\' ∧ quote = '"' then
        match lineEnd? (rest.dropWhile isBlank) with
        | some rest => readLong quote fuel (skipLines rest.length rest)
        | none =>
          match escape? rest with
          | none => none
          | some (c, rest) => prepend c (readLong quote fuel rest)
      else if isPlain c then prepend c (readLong quote fuel rest)
      else none

/-- Drops the line end that may follow the quotes in front of a string of many lines. -/
def skipFirstLineEnd (cs : List Char) : List Char :=
  (lineEnd? cs).getD cs

/-- Reads a string of one line. -/
def readShortString (cs : List Char) : Option (List Char × List Char) :=
  match cs with
  | '"' :: rest => readBasic cs.length rest
  | '\'' :: rest => readLiteral rest
  | _ => none

/-- Reads a string in any of its four forms. -/
def readString (cs : List Char) : Option (List Char × List Char) :=
  match cs with
  | '"' :: '"' :: '"' :: rest => readLong '"' cs.length (skipFirstLineEnd rest)
  | '\'' :: '\'' :: '\'' :: rest => readLong '\'' cs.length (skipFirstLineEnd rest)
  | _ => readShortString cs

/-- Reads a key. -/
def readKey (cs : List Char) : Option (List Char × List Char) :=
  match readShortString cs with
  | some read => some read
  | none =>
    let key := cs.takeWhile isBareKey
    if key = [] then none else some (key, cs.dropWhile isBareKey)

/-- The text of the next line, where only white space and a comment may be left on this one. -/
def readLineRest (cs : List Char) : Option (List Char) :=
  let cs := cs.dropWhile isBlank
  let cs := match cs with
    | '#' :: rest => rest.dropWhile isPlain
    | cs => cs
  match cs with
  | [] => some []
  | cs => lineEnd? cs

/-- Reads one line: a member, a comment or nothing. -/
def readLine (d : Draft) (cs : List Char) : Option (Draft × List Char) :=
  match readLineRest cs with
  | some rest => some (d, rest)
  | none => do
    let (key, rest) ← readKey (cs.dropWhile isBlank)
    match rest.dropWhile isBlank with
    | '=' :: rest =>
      let (value, rest) ← readString (rest.dropWhile isBlank)
      let d ← d.put (String.ofList key) (String.ofList value)
      let rest ← readLineRest rest
      some (d, rest)
    | _ => none

/-- Reads lines up to the end of the text, of which `fuel` bounds how many. -/
def readLines : (fuel : Nat) → Draft → List Char → Option Draft
  | 0, _, _ => none
  | _ + 1, d, [] => some d
  | fuel + 1, d, cs =>
    match readLine d cs with
    | none => none
    | some (d, rest) => readLines fuel d rest

/-- Drops the byte-order mark that may stand in front of a text. -/
def skipByteOrderMark : List Char → List Char
  | '\ufeff' :: rest => rest
  | cs => cs

end Toml

/-- The timings that a TOML document holds; they are not checked. -/
def ofToml? (source : String) : Option Timings :=
  let cs := Toml.skipByteOrderMark source.toList
  (Toml.readLines (cs.length + 1) {} cs).bind Draft.finish

/-- The timings that a TOML document holds, once they have been checked. What a reader of TOML would say about a
document that is none, behind a colon, is left out of the fault. -/
def ofToml (source : String) : Except LockError Timings :=
  match ofToml? source with
  | none => .error (.invalidConfig "failed to parse lock options")
  | some t => t.check.map fun _ => t

end StoreLock.Timings
