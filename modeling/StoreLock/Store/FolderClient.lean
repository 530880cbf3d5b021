import StoreLock.Store.Basic
import StoreLock.Store.Folder
import StoreLock.Store.ObjectName

/-!
# The store in a folder

A store that keeps every object as a file below a root folder. An object is written to a hidden file
first and then moved to its place, so a listing never shows one that is half written. Folders are
made where a name asks for them and are never taken away.
-/

namespace StoreLock

/-- A store that is used through this root. -/
structure FolderClient where
  /-- The path of the root. -/
  root : FilePath
deriving DecidableEq, Repr

namespace FolderClient

/-- Opens a store at a root, which is made if it is not there. -/
def openAt (f : Folder) (root : FilePath) : Except StoreError FolderClient × Folder :=
  match f.makeFolders root with
  | (.error e, f) => (.error (.file e), f)
  | (.ok (), f) => (.ok ⟨root⟩, f)

/-- The path of an object's file. -/
def path (c : FolderClient) (name : String) : Except StoreError FilePath :=
  match ObjectName.segments name with
  | .error fault => .error (.invalidName fault.detail)
  | .ok segments => .ok (c.root.descend (segments.map .text))

/-- The path of the hidden file that an object is written to first. -/
def staging (path : FilePath) : FilePath :=
  match path.pieces.getLast? with
  | some (.text segment) => path.parent.child (.text (ObjectName.staged segment))
  | _ => path

/-- Creates an object. -/
def create (f : Folder) (c : FolderClient) (name : String) (contents : ByteArray) :
    Except StoreError Unit × Folder :=
  match c.path name with
  | .error e => (.error e, f)
  | .ok path =>
    match f.makeFolders path.parent with
    | (.error e, f) => (.error (.file e), f)
    | (.ok (), f) =>
      match f.writeFile (staging path) contents with
      | .error e => (.error (.file e), f)
      | .ok f =>
        match f.rename (staging path) path with
        | .ok f => (.ok (), f)
        | .error e =>
          match f.remove (staging path) with
          | .ok f => (.error (.file e), f)
          | .error _ => (.error (.file e), f)

/-- Deletes an object. -/
def delete (f : Folder) (c : FolderClient) (name : String) : Except StoreError Unit × Folder :=
  match c.path name with
  | .error e => (.error e, f)
  | .ok path =>
    match f.remove path with
    | .ok f => (.ok (), f)
    | .error .notFound => (.ok (), f)
    | .error e => (.error (.file e), f)

/-- The name of an entry where it may belong to an object. -/
def objectSegment? : FileName → Option String
  | .text name => if ObjectName.isObjectSegment name then some name else none
  | .bytes _ => none

/-- The name of a file behind `base`, where it starts with `start`. -/
def listFile (start base : String) (name : FileName) : List String :=
  match objectSegment? name with
  | none => []
  | some segment => if Text.startsWith (base ++ segment) start then [base ++ segment] else []

/-- The names of objects in the folder of a path and below that start with `start`; `base` is what
all names in this folder start with. Folders below are entered only where their names agree with
`start`, and there the system must take their paths. -/
def walk (start base : String) (path : FilePath) : Folder → Except FileFault (List String)
  | .empty => .ok []
  | .file name _ rest => (walk start base path rest).map (listFile start base name ++ ·)
  | .link name _ rest => (walk start base path rest).map (listFile start base name ++ ·)
  | .folder name inside rest =>
    let below : Except FileFault (List String) :=
      match objectSegment? name with
      | none => .ok []
      | some segment =>
        let nested := base ++ segment ++ ObjectName.separator.toString
        if ¬ Text.startsWith nested start then .ok []
        else if (path.child name).isTooLong then .error .nameTooLong
        else walk start nested (path.child name) inside
    match below, walk start base path rest with
    | .ok inner, .ok outer => .ok (inner ++ outer)
    | .error e, _ => .error e
    | .ok _, .error e => .error e

/-- Lists the names of the objects that start with a text, from the innermost folder that the text
names in full. -/
def list (f : Folder) (c : FolderClient) (start : String) : Except StoreError (List String) :=
  let top : Except StoreError (FilePath × String) :=
    match Text.splitLast ObjectName.separator start.toList with
    | none => .ok (c.root, "")
    | some (folder, _) =>
      match c.path (String.ofList folder) with
      | .error e => .error e
      | .ok path => .ok (path, String.ofList folder ++ ObjectName.separator.toString)
  match top with
  | .error e => .error e
  | .ok (path, base) =>
    match f.readFolder path with
    | .error .notFound => .ok []
    | .error e => .error (.file e)
    | .ok inside =>
      match walk start base path inside with
      | .error e => .error (.file e)
      | .ok names => .ok (names.mergeSort fun a b => decide (a ≤ b))

instance : ObjectStore Folder FolderClient where
  label _ := "file"
  create f c _ name contents := create f c name contents
  delete f c _ name := delete f c name
  list f c _ start := (list f c start, f)

end FolderClient

end StoreLock
