import StoreLock.Error
import StoreLock.Text.Split

/-!
# Object names as paths

An object's name is the path of its file below the root of a store on a file system: `/` parts it
into segments, each the name of a file or a folder. Segments that start with a point are refused, so
no name leads out of the root and hidden files are free for objects that are still being written.
-/

namespace StoreLock.ObjectName

/-- What parts a name into segments. -/
def separator : Char := '/'

/-- The most bytes a segment may have. -/
def maxSegment : Nat := 255

/-- The pieces of a text between slashes. -/
def pieces (text : String) : List String :=
  (Text.splitOn separator text.toList).map String.ofList

/-- Why a text is not the name of an object, or has no place for one that is being written. -/
inductive Fault
  | empty
  | emptySegment (name : String)
  | hiddenSegment (name : String)
  | longSegment (name : String)
  | forbiddenCharacter (name : String)
  | noFileName (path : String)
deriving DecidableEq, Repr

/-- The fault in words. -/
def Fault.detail : Fault → String
  | .empty => "object name cannot be empty"
  | .emptySegment name => "object name '" ++ name ++ "' contains an empty path segment"
  | .hiddenSegment name => "object name '" ++ name ++ "' contains a segment starting with '.'"
  | .longSegment name =>
    "object name '" ++ name ++ "' has a segment longer than " ++ maxSegment.repr ++ " bytes"
  | .forbiddenCharacter name => "object name '" ++ name ++ "' contains a backslash or NUL byte"
  | .noFileName path => "'" ++ path ++ "' has no file name"

/-- Whether a segment starts with a point. -/
def isHidden (segment : String) : Bool :=
  segment.toList.head? == some '.'

/-- Whether a file or folder of this name may belong to an object. -/
def isObjectSegment (segment : String) : Bool :=
  !segment.isEmpty && !isHidden segment

/-- The first fault of one segment of a name, if it has one. -/
def segmentFault? (name segment : String) : Option Fault :=
  if segment.isEmpty then some (.emptySegment name)
  else if isHidden segment then some (.hiddenSegment name)
  else if maxSegment < segment.utf8ByteSize then some (.longSegment name)
  else if segment.toList.any fun c => c == '\\' || c == '\x00' then some (.forbiddenCharacter name)
  else none

/-- The segments of an object's name, or its first fault. -/
def segments (name : String) : Except Fault (List String) :=
  if name.isEmpty then .error .empty
  else
    match (pieces name).findSome? (segmentFault? name) with
    | some fault => .error fault
    | none => .ok (pieces name)

/-- The segment under which an object is written before it is moved to its place. -/
def staged (segment : String) : String :=
  "." ++ segment ++ ".tmp"

/-- A path with one more segment. -/
def join (path segment : String) : String :=
  if path.isEmpty || path.toList.getLast? == some separator then path ++ segment
  else path ++ separator.toString ++ segment

/-- The path of an object below a root. -/
def path (root name : String) : Except Fault String :=
  (segments name).map (·.foldl join root)

/-- How many characters of a path are fixed in front of its segments: a slash of the root, or a
leading point that stands for the current folder. -/
def headLength (path : List Char) : Nat :=
  match path with
  | '/' :: _ => 1
  | ['.'] => 1
  | '.' :: '/' :: _ => 1
  | _ => 0

/-- Drops the last segments of a path, given last first, that name nothing. -/
def dropVoid (segments : List (List Char)) : List (List Char) :=
  segments.dropWhile fun s => s.isEmpty || s == ['.']

/-- The last segment of a path and the path of the folder it is in, if the path has a file name. -/
def splitFile? (path : String) : Option (String × String) :=
  let head := path.toList.take (headLength path.toList)
  let body := path.toList.drop (headLength path.toList)
  match dropVoid (Text.splitOn separator body).reverse with
  | [] => none
  | name :: before =>
    if name = ['.', '.'] then none
    else
      let parent := [separator].intercalate (dropVoid before).reverse
      some (String.ofList (head ++ parent), String.ofList name)

/-- The path under which the file with this path is written before it is moved to its place. -/
def stagingPath (path : String) : Except Fault String :=
  match splitFile? path with
  | none => .error (.noFileName path)
  | some (parent, name) => .ok (join parent (staged name))

end StoreLock.ObjectName
