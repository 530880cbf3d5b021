import StoreLock.Text.Classes

/-!
# Escaped text

Writing a text so that every character of it can be seen. Quotes and backslashes are escaped, the
common controls have short forms, and any other invisible character is written by its code point. A
mark that extends its predecessor is written so only where it has none, at the start.
-/

namespace StoreLock.Text

/-- The digits of a number in lower-case hexadecimal, without leading zeros. -/
def hex (n : Nat) : String :=
  String.ofList (Nat.toDigits 16 n)

/-- A character written by its code point. -/
def byCodePoint (c : Char) : String :=
  "\\u\x7b" ++ hex c.toNat ++ "\x7d"

/-- One character made visible; `leads` tells that no character stands before it. -/
def escapeChar (leads : Bool) (c : Char) : String :=
  if c = '\x00' then "\\0"
  else if c = '\t' then "\\t"
  else if c = '\r' then "\\r"
  else if c = '\n' then "\\n"
  else if c = '\'' then "\\'"
  else if c = '"' then "\\\""
  else if c = '\\' then "\\\\"
  else if (leads && isExtending c) || isInvisible c then byCodePoint c
  else c.toString

/-- A text made visible. -/
def escape (s : String) : String :=
  match s.toList with
  | [] => ""
  | c :: rest => escapeChar true c ++ String.join (rest.map (escapeChar false))

end StoreLock.Text
