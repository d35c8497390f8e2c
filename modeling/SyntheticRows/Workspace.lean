import SyntheticRows.Program
import SyntheticRows.Recording
import SyntheticRows.Workspace.Tree

/-!
Workspaces: a system around the program that is held in memory. It has a tree of text files, and its
standard output is a stream, such as a pipe, into a device whose use is recorded. Paths such as
`/dev/stdout` lead to the streams, which a log or a report can be written to.
-/

namespace SyntheticRows

structure Workspace (σ : Type) where
  output : Recording σ
  /-- The text that stands on standard input. -/
  input : String := ""
  tree : Tree := {}
  /-- The log file that is open. -/
  logAt : Option Place := none
  logFilter : Option String := none
  /-- What was shown to the user, line by line, the newest first. -/
  complaints : List (List Char) := []
  occasion : Occasion

namespace Workspace

variable {σ : Type}

/-- The text of a file of the home directory. -/
def fileText (w : Workspace σ) (name : String) : Option (List Char) :=
  w.tree.text? (w.tree.home ++ [name])

/-- Writes at the end of a file, which is made if there is none. -/
def append (w : Workspace σ) (location : Location) (text : List Char) : Workspace σ :=
  { w with tree := w.tree.setText location ((w.tree.text? location).getD [] ++ text) }

/-- Writes a text to standard output, past the program's own writing. -/
def send (w : Workspace σ) (text : List Char) : Option IoFault × Workspace σ :=
  let ((_, fault), output) := StateT.run (m := Id) (writeAll (utf8 text)) w.output
  (fault, { w with output })

/-- Shows a text to the user. -/
def display (w : Workspace σ) (text : List Char) : Workspace σ :=
  { w with complaints := text :: w.complaints }

/-! ### Operations -/

def openLog (w : Workspace σ) (path : String) : Option IoFault × Workspace σ :=
  match w.tree.placeToWrite path with
  | .error fault => (some fault, w)
  | .ok .directory => (some (.system 21), w)
  | .ok (.special kind) => (none, { w with logAt := some (.special kind) })
  | .ok (.file location) => (none, { w.append location [] with logAt := some (.file location) })

/-- Appends a line to the log. It does not matter whether its file takes the line. -/
def appendLog (w : Workspace σ) (line : List Char) : Workspace σ :=
  match w.logAt with
  | some (.file location) => w.append location line
  | some (.special .standardOutput) => (w.send line).2
  | some (.special .standardError) => w.display line
  | _ => w

/-- Reads a file. A file that never ends does not fit into memory, and there is nothing to be read from the streams
    that the program writes to. -/
def readText (w : Workspace σ) (path : String) : Except IoFault String := do
  match ← w.tree.placeToRead path with
  | .directory => .error (.system 21)
  | .special .zero | .special .full => .error .outOfMemory
  | .special .standardInput => .ok w.input
  | .special _ => .ok ""
  | .file location =>
    match w.tree.text? location with
    | some text => .ok (String.ofList text)
    | none => .error (.system 2)

def writeText (w : Workspace σ) (path : String) (text : List Char) : Option IoFault × Workspace σ :=
  match w.tree.placeToWrite path with
  | .error fault => (some fault, w)
  | .ok .directory => (some (.system 21), w)
  | .ok (.special .full) => (some (.system 28), w)
  | .ok (.special .standardOutput) => w.send text
  | .ok (.special .standardError) => (none, w.display text)
  | .ok (.special _) => (none, w)
  | .ok (.file location) => (none, { w with tree := w.tree.setText location text })

instance : Host (StateM (Workspace σ)) where
  write bytes := fun w =>
    let (reply, output) := StateT.run (m := Id) (Outlet.write bytes) w.output
    (reply, { w with output })
  flush := fun w =>
    let (fault, output) := StateT.run (m := Id) Outlet.flush w.output
    (fault, { w with output })
  logFilter := return (← get).logFilter
  openLog path := modifyGet (·.openLog path)
  appendLog line := modify (·.appendLog line)
  complain line := modify (·.display line)
  readText path := return (← get).readText path
  writeText path text := modifyGet (·.writeText path text)
  occasion := return (← get).occasion
  milliseconds := pure 0
  now := return (← get).occasion.startedAt

end Workspace

namespace Program

/-- The program in a workspace. -/
def executeIn {σ : Type} (w : Workspace σ) (args : List String) : Outcome × Workspace σ :=
  StateT.run (m := Id) (execute args) w

end Program

end SyntheticRows
