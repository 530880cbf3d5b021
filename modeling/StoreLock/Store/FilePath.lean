import StoreLock.Text.Split
import StoreLock.Text.Utf8

/-!
# Names and paths

The names of entries in folders, which need not be UTF-8, and paths as they are written from the top
of the tree of folders: pieces behind slashes. An empty piece and `.` stay in a folder, `..` leaves
it. How a path is written matters: its length is limited, and a slash at the end asks for a folder.
-/

namespace StoreLock

/-- The name of an entry in a folder. -/
inductive FileName
  | text (name : String)
  /-- A name that is not UTF-8. -/
  | bytes (name : List UInt8)
deriving DecidableEq, Repr

namespace FileName

/-- The most bytes a name may have. -/
def maxLength : Nat := 255

/-- How many bytes a name has. -/
def length : FileName → Nat
  | .text name => name.utf8ByteSize
  | .bytes name => name.length

/-- Whether the byte zero is in a name. No entry has such a name. -/
def hasNul : FileName → Bool
  | .text name => name.toList.contains '\x00'
  | .bytes name => name.contains 0

/-- The name with these bytes. -/
def ofBytes (bytes : List UInt8) : FileName :=
  match Text.ofUtf8? bytes with
  | some name => .text name
  | none => .bytes bytes

/-- How many of the first bytes, which begin no whole character, could begin one together. -/
def brokenLength (bytes : List UInt8) : Nat :=
  let begins (n : Nat) (missing : List UInt8) : Bool :=
    decide (n ≤ bytes.length) && (Text.ofUtf8? (bytes.take n ++ missing)).isSome
  if begins 3 [0x80] then 3
  else if begins 2 [0x80] || begins 2 [0x80, 0x80] then 2
  else 1

/-- A text for bytes, in which a mark stands for what is no character. -/
def lossy : (fuel : Nat) → List UInt8 → String
  | 0, _ => ""
  | _ + 1, [] => ""
  | fuel + 1, left =>
    let first := [1, 2, 3, 4].findSome? fun n =>
      if n ≤ left.length then (Text.ofUtf8? (left.take n)).map fun c => (n, c) else none
    match first with
    | some (n, c) => c ++ lossy fuel (left.drop n)
    | none => "\ufffd" ++ lossy fuel (left.drop (brokenLength left))

/-- A name as it is shown. -/
def shown : FileName → String
  | .text name => name
  | .bytes name => lossy name.length name

end FileName

/-- The place of an entry: its path from the top, through folders only. -/
abbrev Place := List FileName

/-- A path from the top, as it is written. -/
structure FilePath where
  /-- What stands behind each slash, which may be nothing. -/
  pieces : List FileName
deriving DecidableEq, Repr

namespace FilePath

/-- The path of the top. -/
def top : FilePath := ⟨[]⟩

/-- The path with these pieces between slashes; what stands before the first slash is a piece too,
unless it is nothing. -/
def ofPieces (pieces : List FileName) : FilePath :=
  match pieces with
  | .text "" :: rest => ⟨rest⟩
  | pieces => ⟨pieces⟩

/-- The path that a text writes. There is no current folder, so a text that does not begin with a slash is a path from
the top as well, and the empty text, which a file system refuses, is the path of the top. -/
def ofText (text : String) : FilePath :=
  ofPieces ((Text.splitOn '/' text.toList).map fun piece => .text (String.ofList piece))

/-- The path that bytes write. -/
def ofBytes (bytes : List UInt8) : FilePath :=
  ofPieces ((Text.splitOn 0x2F bytes).map FileName.ofBytes)

/-- The names on a path. -/
def names (path : FilePath) : List FileName :=
  path.pieces.filter fun piece => piece ≠ .text ""

/-- Whether a slash ends a path, which asks for a folder. -/
def endsInSlash (path : FilePath) : Bool :=
  path.pieces.getLast? == some (.text "")

/-- The path that goes on from a path by these names. -/
def descend (path : FilePath) (names : List FileName) : FilePath :=
  ⟨(if path.endsInSlash then path.pieces.dropLast else path.pieces) ++ names⟩

/-- The path of an entry in the folder of a path. -/
def child (path : FilePath) (name : FileName) : FilePath :=
  path.descend [name]

/-- Whether a piece of a path stays in the folder that has been reached. -/
def stays (piece : FileName) : Bool :=
  piece = .text "" || piece = .text "."

/-- The paths to which pieces, given last first, lead one after another, longest first. A path ends
with a piece that does not stay. -/
def prefixes : List FileName → List FilePath
  | [] => [top]
  | piece :: before =>
    if stays piece then prefixes before else ⟨(piece :: before).reverse⟩ :: prefixes before

/-- The folders that the last name of a path is in, innermost first. -/
def around (path : FilePath) : List FilePath :=
  (prefixes path.pieces.reverse).tail

/-- The folder that the last name of a path is in. -/
def parent (path : FilePath) : FilePath :=
  ⟨((path.pieces.reverse.dropWhile stays).tail.dropWhile stays).reverse⟩

/-- The most bytes that the system takes for a path. -/
def maxLength : Nat := 4095

/-- How many bytes a path has, with a slash before each piece. -/
def length (path : FilePath) : Nat :=
  path.pieces.foldr (fun piece total => piece.length + 1 + total) 0

/-- Whether a path is too long for the system. -/
def isTooLong (path : FilePath) : Bool :=
  decide (maxLength < path.length)

end FilePath

end StoreLock
