import SyntheticRows.Framing.Writer
import SyntheticRows.Options
import SyntheticRows.Report

/-!
Runs: the rows of the selected passes, written to a sink one after another. Options that are not
accepted are refused before anything is written.
-/

namespace SyntheticRows

/-- What stops a run. -/
inductive RunFault
  | options (fault : OptionFault)
  | io (fault : IoFault)
deriving DecidableEq

namespace RunFault

def message : RunFault → String
  | options fault => "invalid options: " ++ fault.message
  | io fault => "io error: " ++ fault.message

end RunFault

/-- The steps of a run that it makes known. -/
inductive RunEvent
  | optionsAccepted (rowsPerPass : UInt64)
  | started (report : Report) (options : Options)
  | passStarted (pass : Pass)
  | passFinished (report : PassReport)
  | finished (report : Report)

/-- Those who follow a run: they hear of its steps and tell it the time. -/
class Observer (m : Type → Type) where
  note : RunEvent → m Unit
  /-- Milliseconds since some moment before the run. -/
  clock : m UInt64

/-- What a run is given besides its options. -/
structure Occasion where
  runId : String
  startedAt : Instant
  /-- The seed to use if the options name none. -/
  randomSeed : Seed

namespace Run

/-! ### Passes -/

/-- The row index of a number, if 32 bits hold it. -/
def rowIndex? (n : Nat) : Option UInt32 :=
  if h : n < UInt32.size then some (UInt32.ofNatLT n h) else none

/-- The text that a writer expects for the row at an index. -/
def rowText (framing : Framing) (pass : Pass) (passSeed : Seed) (index : UInt32) : List Char :=
  match framing with
  | .lines => pass.line passSeed index
  | .statements .. => pass.tuple passSeed index

def writerFor (framing : Framing) (pass : Pass) : Framing.Writer :=
  match framing.table? pass with
  | none => .lines
  | some table => .statement table pass.columns

section

variable {m : Type → Type} [Monad m] [Outlet m]

/-- Writes the rows at an index and at each step after it, below a bound. The fuel bounds their number;
    as a step goes at least one index further, the bound is enough. -/
def writeRows (row : UInt32 → List Char) (step bound : Nat) :
    (fuel index : Nat) → Framing.Writer → m (Option RunFault × Framing.Writer)
  | 0, _, w => pure (none, w)
  | fuel + 1, index, w =>
    if index < bound then do
      match rowIndex? index with
      | none => pure (some (.options (.indexTooLarge index)), w)
      | some i =>
        let (fault, w) ← w.writeRow (utf8 (row i))
        match fault with
        | some fault => pure (some (.io fault), w)
        | none => writeRows row step bound fuel (index + step) w
    else pure (none, w)

/-- Writes all rows of a pass. Gives the number of rows and of bytes. -/
def writePass (o : Options) (seed : Seed) (pass : Pass) : m (Except RunFault (Nat × Nat)) := do
  let row := rowText o.framing pass (pass.seed seed)
  let bound := o.upperBound.toNat
  let (fault, w) ← writeRows row o.step.toNat bound bound 0 (writerFor o.framing pass)
  match fault with
  | some fault => pure (.error fault)
  | none =>
    let (fault, w) ← w.finish
    match fault with
    | some fault => pure (.error (.io fault))
    | none => pure (.ok (w.rows, w.bytes))

variable [Observer m]

/-- Runs passes in turn and adds the report of each. -/
def runPasses (o : Options) : List Pass → Report → m (Except RunFault Report)
  | [], report => pure (.ok report)
  | pass :: rest, report => do
    let before ← Observer.clock
    Observer.note (.passStarted pass)
    match ← writePass o report.seed pass with
    | .error fault => pure (.error fault)
    | .ok (rows, bytes) =>
      let after ← Observer.clock
      let passReport : PassReport :=
        { pass, rows := UInt64.ofNat rows, bytesWritten := UInt64.ofNat bytes
          milliseconds := after - before }
      Observer.note (.passFinished passReport)
      runPasses o rest (report.push passReport)

end

end Run

/-- Checks the options, runs the selected passes and reports on them. -/
def run {m : Type → Type} [Monad m] [Outlet m] [Observer m] (o : Options) (occasion : Occasion) :
    m (Except RunFault Report) := do
  match o.fault? with
  | some fault => pure (.error (.options fault))
  | none =>
    Observer.note (.optionsAccepted o.rowsPerPass)
    let before ← Observer.clock
    let report : Report :=
      { runId := occasion.runId
        seed := o.seed.getD occasion.randomSeed
        startedAt := occasion.startedAt }
    Observer.note (.started report o)
    match ← Run.runPasses o o.selectedPasses report with
    | .error fault => pure (.error fault)
    | .ok report =>
      let after ← Observer.clock
      let report := { report with milliseconds := after - before }
      Observer.note (.finished report)
      pure (.ok report)

end SyntheticRows
