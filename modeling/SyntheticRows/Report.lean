import SyntheticRows.Instant
import SyntheticRows.Pass

/-!
Reports: what a run wrote, pass by pass, and the seed with which it can be repeated.
-/

namespace SyntheticRows

structure PassReport where
  pass : Pass
  rows : UInt64
  bytesWritten : UInt64
  milliseconds : UInt64
deriving DecidableEq

structure Report where
  runId : String
  /-- The seed that the run used, whether it was asked for or not. -/
  seed : Seed
  startedAt : Instant
  passes : List PassReport := []
  milliseconds : UInt64 := 0
deriving DecidableEq

namespace Report

def push (r : Report) (pass : PassReport) : Report :=
  { r with passes := r.passes ++ [pass] }

def rowsTotal (r : Report) : UInt64 :=
  r.passes.foldl (fun total pass => total + pass.rows) 0

def bytesTotal (r : Report) : UInt64 :=
  r.passes.foldl (fun total pass => total + pass.bytesWritten) 0

end Report

end SyntheticRows
