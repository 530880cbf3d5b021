/-!
# Pieces of text

Cutting a text at a character, at its last occurrence or at every one, and asking how it starts.
The bytes of a text can be cut at every occurrence in the same way.
-/

namespace StoreLock.Text

/-- What stands before and after the last occurrence of a character, if it occurs. -/
def splitLast (sep : Char) : List Char → Option (List Char × List Char)
  | [] => none
  | c :: rest =>
    match splitLast sep rest with
    | some (before, after) => some (c :: before, after)
    | none => if c = sep then some ([], rest) else none

/-- The pieces between the occurrences of an element. -/
def splitOn {α : Type} [DecidableEq α] (sep : α) : List α → List (List α)
  | [] => [[]]
  | c :: rest =>
    if c = sep then [] :: splitOn sep rest
    else
      match splitOn sep rest with
      | [] => [[c]]
      | piece :: pieces => (c :: piece) :: pieces

/-- Whether a text starts with another. -/
def startsWith (s start : String) : Bool :=
  start.toList.isPrefixOf s.toList

end StoreLock.Text
