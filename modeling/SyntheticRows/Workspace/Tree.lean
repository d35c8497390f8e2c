import SyntheticRows.Fault

/-!
Trees of directories and text files that are held in memory, and the places that paths lead to in them.
A path starts from the root or from the home directory and goes down and up by names, some of which are
links. Beside text files there are special files, among them the streams that the program is run with.
-/

namespace SyntheticRows

/-- Where something is in a tree: the names from the root down to it. -/
abbrev Location := List String

/-- The files that keep no text. -/
inductive Special
  /-- It is empty, and takes everything. -/
  | null
  /-- It never ends, and takes everything. -/
  | zero
  /-- It never ends, and takes nothing. -/
  | full
  | standardInput
  | standardOutput
  | standardError
deriving DecidableEq, Repr

namespace Tree

/-- The directories that a tree begins with, beside the root and its home directory. -/
def usualDirectories : List Location :=
  ["bin", "boot", "dev", "etc", "home", "lib", "lib64", "media", "mnt", "opt", "proc", "root", "run", "sbin",
    "srv", "sys", "tmp", "usr", "var"].map ([·]) ++
  ["bin", "include", "lib", "local", "sbin", "share", "src"].map (["usr", ·]) ++
  ["cache", "lib", "log", "spool", "tmp"].map (["var", ·]) ++
  ["pts", "shm"].map (["dev", ·]) ++
  [["proc", "self"], ["proc", "self", "fd"]]

/-- The links that a tree begins with. -/
def usualLinks : List (Location × Location) :=
  [(["dev", "fd"], ["proc", "self", "fd"]), (["dev", "stdin"], ["proc", "self", "fd", "0"]),
    (["dev", "stdout"], ["proc", "self", "fd", "1"]), (["dev", "stderr"], ["proc", "self", "fd", "2"])]

/-- The special files that a tree begins with. -/
def usualSpecials : List (Location × Special) :=
  [(["dev", "null"], .null), (["dev", "zero"], .zero), (["dev", "full"], .full),
    (["proc", "self", "fd", "0"], .standardInput), (["proc", "self", "fd", "1"], .standardOutput),
    (["proc", "self", "fd", "2"], .standardError)]

/-- The files that a tree begins with, and their texts. -/
def usualFiles : List (Location × List Char) :=
  [(["etc", "hosts"], "127.0.0.1 localhost\n".toList),
    (["etc", "passwd"], "root:x:0:0:root:/root:/bin/sh\n".toList)]

end Tree

structure Tree where
  /-- The directory that paths without a leading slash start from. -/
  home : Location := ["tmp", "workspace"]
  /-- The directories beside the root, the home directory and those that this is in. -/
  directories : List Location := Tree.usualDirectories
  /-- The names that are links, and where they lead in the end. -/
  links : List (Location × Location) := Tree.usualLinks
  specials : List (Location × Special) := Tree.usualSpecials
  /-- The files with their texts. -/
  files : List (Location × List Char) := Tree.usualFiles

/-- What a path leads to. -/
inductive Place
  | directory
  /-- A file, or a place where one can be made. -/
  | file (location : Location)
  | special (kind : Special)
deriving DecidableEq

namespace Tree

/-! ### Contents -/

def text? (t : Tree) (location : Location) : Option (List Char) :=
  t.files.lookup location

/-- What is at a location. -/
def at? (t : Tree) (location : Location) : Option Place :=
  if location ∈ t.directories ∨ location.isPrefixOf t.home then some .directory
  else
    match t.specials.lookup location with
    | some kind => some (.special kind)
    | none => (t.text? location).map fun _ => .file location

/-- The file at a location with another text; a new file if there was none. -/
def setText (t : Tree) (location : Location) (text : List Char) : Tree :=
  if (t.text? location).isSome then
    { t with files := t.files.map fun file => if file.1 == location then (location, text) else file }
  else { t with files := t.files ++ [(location, text)] }

/-! ### Paths -/

/-- The longest name that a file can have, in bytes. -/
def maxNameBytes : Nat := 255

/-- The length that a path stays below, in bytes. -/
def pathLimit : Nat := 4096

/-- The location that a name leads to from another location, which has to be a directory. -/
def follow (t : Tree) (here : Location) (name : String) : Except IoFault Location :=
  if t.at? here ≠ some .directory then .error (.system 20)
  else if name = "." then .ok here
  else if name = ".." then .ok here.dropLast
  else if maxNameBytes < name.utf8ByteSize then .error (.system 36)
  else .ok ((t.links.lookup (here ++ [name])).getD (here ++ [name]))

/-- Follows names from a location to something that is there. -/
def walk (t : Tree) (here : Location) : List String → Except IoFault Location
  | [] => .ok here
  | name :: names => do
    let there ← t.follow here name
    if (t.at? there).isSome then walk t there names else .error (.system 2)

/-- The fault of making a file in a directory in which only the system makes files. -/
def refusal? : Location → Option IoFault
  | "proc" :: _ => some (.system 2)
  | "sys" :: _ | ["dev", "pts"] => some (.system 13)
  | _ => none

/-- The place of a file that is to be made. It may be where a link leads, so that its directory has to be looked for. -/
def vacancy (t : Tree) (location : Location) : Except IoFault Place :=
  if t.at? location.dropLast ≠ some .directory then .error (.system 2)
  else
    match refusal? location.dropLast with
    | some fault => .error fault
    | none => .ok (.file location)

/-- Where the names of a path are followed from. -/
def origin (t : Tree) (path : String) : Location :=
  if path.startsWith "/" then [] else t.home

/-- The names of a path. Slashes beside each other count once. -/
def names (path : String) : List String :=
  (path.splitOn "/").filter (· ≠ "")

/-- The place of a path that is to be read. A slash at the end is for directories only. -/
def placeToRead (t : Tree) (path : String) : Except IoFault Place := do
  if path = "" then .error (.system 2)
  else if pathLimit ≤ path.utf8ByteSize then .error (.system 36)
  else
    let location ← t.walk (t.origin path) (names path)
    match t.at? location with
    | none => .error (.system 2)
    | some .directory => .ok .directory
    | some place => if path.endsWith "/" then .error (.system 20) else .ok place

/-- The place of a path that is to be written. A name that nothing has yet may end it, and a path with
    a slash at the end is taken for a directory whatever its last name is. -/
def placeToWrite (t : Tree) (path : String) : Except IoFault Place := do
  if path = "" then .error (.system 2)
  else if pathLimit ≤ path.utf8ByteSize then .error (.system 36)
  else
    match (names path).getLast? with
    | none => .ok .directory
    | some last =>
      let here ← t.walk (t.origin path) (names path).dropLast
      if path.endsWith "/" ∧ t.at? here = some .directory then .ok .directory
      else
        let location ← t.follow here last
        match t.at? location with
        | some place => .ok place
        | none => t.vacancy location

end Tree

end SyntheticRows
