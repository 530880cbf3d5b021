import StoreLock.Time

/-!
# Errors

What a store can report and what a lock can report, each as a cause with its wording in one place.
A missing object is no error, and neither is a wait that ran out.
-/

namespace StoreLock

/-- Why a step on the directory tree failed. -/
inductive FileFault
  | notFound
  | alreadyExists
  | notDirectory
  | isDirectory
  | nameTooLong
  | tooManyLinks
  /-- A path holds the character that would end it for the system, so the system was not asked. -/
  | nulInPath
deriving DecidableEq, Repr

namespace FileFault

/-- The fault in words. -/
def text : FileFault → String
  | .notFound => "no such file or directory"
  | .alreadyExists => "file exists"
  | .notDirectory => "not a directory"
  | .isDirectory => "is a directory"
  | .nameTooLong => "file name too long"
  | .tooManyLinks => "too many levels of symbolic links"
  | .nulInPath => "file name contained an unexpected NUL byte"

end FileFault

/-- What an object store reports when a call fails. -/
inductive StoreError
  /-- The store could not be reached. -/
  | unavailable (detail : String)
  /-- The store refused the call. -/
  | denied (detail : String)
  /-- The store cannot represent the object name. -/
  | invalidName (detail : String)
  /-- Local input or output failed, as told in words. -/
  | io (detail : String)
  /-- Local input or output failed on the directory tree. -/
  | file (fault : FileFault)
  /-- Any other failure of the store. -/
  | backend (detail : String)
deriving DecidableEq, Repr

namespace StoreError

/-- The error as it is shown. -/
def message : StoreError → String
  | .unavailable detail => "store unavailable: " ++ detail
  | .denied detail => "store denied the operation: " ++ detail
  | .invalidName detail => "invalid object name: " ++ detail
  | .io detail => "store I/O error: " ++ detail
  | .file fault => "store I/O error: " ++ fault.text
  | .backend detail => "store backend error: " ++ detail

end StoreError

/-- What a lock, or the making of one, reports when it fails. -/
inductive LockError
  /-- The store failed and the attempt was given up. -/
  | store (error : StoreError)
  /-- The call was cancelled. -/
  | cancelled
  /-- The lock is held already. -/
  | alreadyLocked (lockPrefix : String)
  /-- The lock is not held. -/
  | notLocked (lockPrefix : String)
  /-- A lock prefix or an owner id is refused. -/
  | invalidName (detail : String)
  /-- A timing or a part of a provider is refused. -/
  | invalidConfig (detail : String)
deriving DecidableEq, Repr

namespace LockError

/-- The error as it is shown; a store's error is shown as it is. -/
def message : LockError → String
  | .store error => error.message
  | .cancelled => "lock operation was cancelled"
  | .alreadyLocked lockPrefix => "lock '" ++ lockPrefix ++ "' is already held by this instance"
  | .notLocked lockPrefix => "lock '" ++ lockPrefix ++ "' is not held by this instance"
  | .invalidName detail => "invalid lock name: " ++ detail
  | .invalidConfig detail => "invalid lock configuration: " ++ detail

end LockError

end StoreLock
