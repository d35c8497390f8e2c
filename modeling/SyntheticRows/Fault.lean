/-!
Faults of reading and writing: what the operating system reports by a number, and what a sink or a
reader states in words.
-/

namespace SyntheticRows

/-- The kinds into which faults fall. -/
inductive FaultKind
  | alreadyExists
  | brokenPipe
  | fileTooLarge
  | filesystemLoop
  | interrupted
  | invalidData
  | invalidFilename
  | isADirectory
  | notADirectory
  | notFound
  | outOfMemory
  | permissionDenied
  | quotaExceeded
  | readOnlyFilesystem
  | storageFull
  | uncategorized
  | writeZero
deriving DecidableEq, Repr

namespace FaultKind

def name : FaultKind → String
  | alreadyExists => "AlreadyExists"
  | brokenPipe => "BrokenPipe"
  | fileTooLarge => "FileTooLarge"
  | filesystemLoop => "FilesystemLoop"
  | interrupted => "Interrupted"
  | invalidData => "InvalidData"
  | invalidFilename => "InvalidFilename"
  | isADirectory => "IsADirectory"
  | notADirectory => "NotADirectory"
  | notFound => "NotFound"
  | outOfMemory => "OutOfMemory"
  | permissionDenied => "PermissionDenied"
  | quotaExceeded => "QuotaExceeded"
  | readOnlyFilesystem => "ReadOnlyFilesystem"
  | storageFull => "StorageFull"
  | uncategorized => "Uncategorized"
  | writeZero => "WriteZero"

end FaultKind

inductive IoFault
  /-- A fault that the operating system reports by its number. -/
  | system (code : Nat)
  /-- A fault that is stated in words. -/
  | stated (kind : FaultKind) (text : String)
deriving DecidableEq, Repr

namespace IoFault

/-- A sink took nothing of what it was offered. -/
def nothingTaken : IoFault :=
  .stated .writeZero "failed to write whole buffer"

/-- A file to be read as text holds bytes that are no text. -/
def notText : IoFault :=
  .stated .invalidData "stream did not contain valid UTF-8"

/-- A file does not fit into memory, as one that never ends. -/
def outOfMemory : IoFault :=
  .stated .outOfMemory "out of memory"

/-- A file was not opened for what is done with it. -/
def notOpen : IoFault :=
  .system 9

/-- The kind and the words of the numbers that reading and writing files can bring up. -/
def describe : Nat → FaultKind × String
  | 1 => (.permissionDenied, "Operation not permitted")
  | 2 => (.notFound, "No such file or directory")
  | 5 => (.uncategorized, "Input/output error")
  | 9 => (.uncategorized, "Bad file descriptor")
  | 13 => (.permissionDenied, "Permission denied")
  | 17 => (.alreadyExists, "File exists")
  | 20 => (.notADirectory, "Not a directory")
  | 21 => (.isADirectory, "Is a directory")
  | 24 => (.uncategorized, "Too many open files")
  | 27 => (.fileTooLarge, "File too large")
  | 28 => (.storageFull, "No space left on device")
  | 30 => (.readOnlyFilesystem, "Read-only file system")
  | 32 => (.brokenPipe, "Broken pipe")
  | 36 => (.invalidFilename, "File name too long")
  | 40 => (.filesystemLoop, "Too many levels of symbolic links")
  | 122 => (.quotaExceeded, "Disk quota exceeded")
  | code => (.uncategorized, s!"Unknown error {code}")

def kind : IoFault → FaultKind
  | system code => (describe code).1
  | stated kind _ => kind

def message : IoFault → String
  | system code => s!"{(describe code).2} (os error {code})"
  | stated _ text => text

end IoFault

end SyntheticRows
