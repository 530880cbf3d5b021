import StoreLock.Error
import StoreLock.Store.FilePath

/-!
# Folders

A tree of folders, files and symbolic links, with the steps a store takes on it. Steps name an entry
by a path from the top of the tree. Links on the way are followed, up to a limit; whether the last
name is followed too depends on the step. The top is the folder around itself.
-/

namespace StoreLock

/-- The entries of a folder. -/
inductive Folder
  | empty
  | file (name : FileName) (contents : ByteArray) (rest : Folder)
  /-- A symbolic link. -/
  | link (name : FileName) (target : String) (rest : Folder)
  | folder (name : FileName) (inside rest : Folder)

/-- What an entry is. -/
inductive FileNode
  | file (contents : ByteArray)
  | link (target : String)
  | folder (inside : Folder)

namespace Folder

/-- The entry with this name. -/
def find? : Folder → FileName → Option FileNode
  | .empty, _ => none
  | .file n contents rest, name => if n = name then some (.file contents) else rest.find? name
  | .link n target rest, name => if n = name then some (.link target) else rest.find? name
  | .folder n inside rest, name => if n = name then some (.folder inside) else rest.find? name

/-- The folder without the entry of this name. -/
def erase : Folder → FileName → Folder
  | .empty, _ => .empty
  | .file n contents rest, name =>
    if n = name then rest.erase name else .file n contents (rest.erase name)
  | .link n target rest, name =>
    if n = name then rest.erase name else .link n target (rest.erase name)
  | .folder n inside rest, name =>
    if n = name then rest.erase name else .folder n inside (rest.erase name)

/-- The folder with this entry, in place of any other of its name. -/
def insert (f : Folder) (name : FileName) (node : FileNode) : Folder :=
  match node with
  | .file contents => .file name contents (f.erase name)
  | .link target => .link name target (f.erase name)
  | .folder inside => .folder name inside (f.erase name)

/-- What is at a place. -/
def at? (f : Folder) : Place → Option FileNode
  | [] => some (.folder f)
  | [name] => f.find? name
  | name :: place =>
    match f.find? name with
    | some (.folder inside) => inside.at? place
    | _ => none

/-- Changes the folder at a place. -/
def modify (f : Folder) (change : Folder → Folder) : Place → Folder
  | [] => change f
  | name :: place =>
    match f.find? name with
    | some (.folder inside) => f.insert name (.folder (inside.modify change place))
    | _ => f

/-- Puts an entry at a place. -/
def set (f : Folder) (place : Place) (node : FileNode) : Folder :=
  match place.getLast? with
  | none => f
  | some name => f.modify (·.insert name node) place.dropLast

/-- Takes away the entry at a place. -/
def unset (f : Folder) (place : Place) : Folder :=
  match place.getLast? with
  | none => f
  | some name => f.modify (·.erase name) place.dropLast

/-- How many links are followed on one way. -/
def maxLinks : Nat := 40

/-- A folder that has been reached from the top. -/
structure Spot where
  here : Folder
  /-- The names that led here and the folder that each is in, last first. -/
  trail : List (FileName × Folder)

namespace Spot

/-- The place of the folder. -/
def place (s : Spot) : Place :=
  (s.trail.map (·.1)).reverse

/-- Goes on to a folder in this one. -/
def enter (s : Spot) (name : FileName) (inside : Folder) : Spot :=
  ⟨inside, (name, s.here) :: s.trail⟩

/-- Goes back to the folder around this one. -/
def leave (s : Spot) : Spot :=
  match s.trail with
  | [] => s
  | (_, outside) :: trail => ⟨outside, trail⟩

end Spot

/-- How far names lead without following a link. -/
inductive Walked
  /-- To their end, at this place. -/
  | arrived (place : Place)
  /-- To a link, from the folder it is in and with what comes behind it. -/
  | link (reached : Spot) (target : String) (rest : List FileName)
  /-- Nowhere. -/
  | lost (fault : FileFault)

/-- Walks along names from a folder that has been reached. Nothing need have the last one. -/
def walkFrom (followsLast : Bool) (reached : Spot) : List FileName → Walked
  | [] => .arrived reached.place
  | name :: rest =>
    if name = .text "." then walkFrom followsLast reached rest
    else if name = .text ".." then walkFrom followsLast reached.leave rest
    else if FileName.maxLength < name.length then .lost .nameTooLong
    else
      match reached.here.find? name with
      | none => if rest = [] then .arrived (reached.place ++ [name]) else .lost .notFound
      | some (.folder inside) => walkFrom followsLast (reached.enter name inside) rest
      | some (.file _) =>
        if rest = [] then .arrived (reached.place ++ [name]) else .lost .notDirectory
      | some (.link target) =>
        if rest = [] ∧ ¬ followsLast then .arrived (reached.place ++ [name])
        else .link reached target rest

/-- Where a path leads. -/
structure Landing where
  /-- The place, where nothing need be. -/
  place : Place
  /-- Whether a slash at the end of the way asks for a folder there. -/
  slash : Bool

/-- Walks along names and follows the links on the way, of which `links` may be met. -/
def follow (f : Folder) (followsLast : Bool) (links : Nat) (reached : Spot)
    (names : List FileName) (slash : Bool) : Except FileFault Landing :=
  match walkFrom followsLast reached names with
  | .arrived place => .ok ⟨place, slash⟩
  | .lost fault => .error fault
  | .link reached target rest =>
    match links with
    | 0 => .error .tooManyLinks
    | links + 1 =>
      let way := FilePath.ofText target
      let start := if target.toList.head? = some '/' then ⟨f, []⟩ else reached
      f.follow followsLast links start (way.names ++ rest)
        (slash || (rest.isEmpty && way.endsInSlash))

/-- Where a path leads, if the system takes the path. -/
def resolve (f : Folder) (followsLast : Bool) (path : FilePath) : Except FileFault Landing :=
  if path.pieces.any FileName.hasNul then .error .nulInPath
  else if path.isTooLong then .error .nameTooLong
  else f.follow followsLast maxLinks ⟨f, []⟩ path.names path.endsInSlash

/-- The folder that a path leads to. -/
def readFolder (f : Folder) (path : FilePath) : Except FileFault Folder :=
  match f.resolve true path with
  | .error e => .error e
  | .ok landing =>
    match f.at? landing.place with
    | none => .error .notFound
    | some (.folder inside) => .ok inside
    | some _ => .error .notDirectory

/-- What the file holds that a path leads to. -/
def fileAt? (f : Folder) (path : FilePath) : Option ByteArray :=
  match f.resolve true path with
  | .error _ => none
  | .ok landing =>
    match f.at? landing.place with
    | some (.file contents) => if landing.slash then none else some contents
    | _ => none

/-- Whether a path leads to a folder. -/
def isFolder (f : Folder) (path : FilePath) : Bool :=
  (f.readFolder path).isOk

/-- Makes a folder where nothing is yet. -/
def makeFolder (f : Folder) (path : FilePath) : Except FileFault Folder :=
  match f.resolve false path with
  | .error e => .error e
  | .ok landing =>
    match f.at? landing.place with
    | some _ => .error .alreadyExists
    | none => .ok (f.set landing.place (.folder .empty))

/-- Makes a folder; one that is there already will do. -/
def ensureFolder (f : Folder) (path : FilePath) : Except FileFault Folder :=
  match f.makeFolder path with
  | .ok f => .ok f
  | .error e => if e = .alreadyExists ∧ f.isFolder path then .ok f else .error e

/-- Makes a folder, and where the folder around it is missing tries again when `around` has made
that. -/
def ensureIn (f : Folder) (path : FilePath) (around : Folder → Except FileFault Unit × Folder) :
    Except FileFault Unit × Folder :=
  match f.ensureFolder path with
  | .ok f => (.ok (), f)
  | .error .notFound =>
    match around f with
    | (.error e, f) => (.error e, f)
    | (.ok (), f) =>
      match f.ensureFolder path with
      | .ok f => (.ok (), f)
      | .error e => (.error e, f)
  | .error e => (.error e, f)

/-- Makes the first of some folders, each of which is in the next. -/
def ensureWithin (f : Folder) : List FilePath → Except FileFault Unit × Folder
  | [] => (.ok (), f)
  | path :: around => f.ensureIn path fun f => f.ensureWithin around

/-- Makes a folder and those it is in. What has been made stays when a later one cannot be made. -/
def makeFolders (f : Folder) (path : FilePath) : Except FileFault Unit × Folder :=
  f.ensureIn path fun f => f.ensureWithin path.around

/-- Writes a file, in place of what it held before. -/
def writeFile (f : Folder) (path : FilePath) (contents : ByteArray) : Except FileFault Folder :=
  match f.resolve true path with
  | .error e => .error e
  | .ok landing =>
    if landing.slash then .error .isDirectory
    else
      match f.at? landing.place with
      | some (.folder _) => .error .isDirectory
      | _ => .ok (f.set landing.place (.file contents))

/-- The most bytes that the target of a link may have. -/
def maxTarget : Nat := 4095

/-- Makes a symbolic link where nothing is yet. -/
def makeLink (f : Folder) (path : FilePath) (target : String) : Except FileFault Folder :=
  if target.toList.contains '\x00' then .error .nulInPath
  else if target.isEmpty then .error .notFound
  else if maxTarget < target.utf8ByteSize then .error .nameTooLong
  else
    match f.resolve false path with
    | .error e => .error e
    | .ok landing =>
      match f.at? landing.place with
      | some _ => .error .alreadyExists
      | none =>
        if landing.slash then .error .notFound
        else .ok (f.set landing.place (.link target))

/-- Moves a file or a link to another place, in place of any file or link there. -/
def rename (f : Folder) (source target : FilePath) : Except FileFault Folder :=
  match f.resolve false source, f.resolve false target with
  | .error e, _ => .error e
  | _, .error e => .error e
  | .ok source, .ok target =>
    match f.at? source.place, f.at? target.place with
    | none, _ => .error .notFound
    | some (.folder _), _ => .error .isDirectory
    | some node, there =>
      if source.slash || target.slash then .error .notDirectory
      else
        match there with
        | some (.folder _) => .error .isDirectory
        | _ => .ok ((f.unset source.place).set target.place node)

/-- Takes away a file or a link. -/
def remove (f : Folder) (path : FilePath) : Except FileFault Folder :=
  match f.resolve false path with
  | .error e => .error e
  | .ok landing =>
    match f.at? landing.place with
    | none => .error .notFound
    | some (.folder _) => .error .isDirectory
    | some _ => if landing.slash then .error .notDirectory else .ok (f.unset landing.place)

/-- The paths of all entries behind a text, folders with a slash at the end. -/
def paths (base : String) : Folder → List String
  | .empty => []
  | .file name _ rest => (base ++ name.shown) :: rest.paths base
  | .link name _ rest => (base ++ name.shown) :: rest.paths base
  | .folder name inside rest =>
    let path := base ++ name.shown ++ "/"
    path :: inside.paths path ++ rest.paths base

end Folder

end StoreLock
