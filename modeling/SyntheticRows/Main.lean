import Std.Time
import SyntheticRows.Program
import SyntheticRows.RunId

/-!
The program on a real system.
-/

open SyntheticRows

namespace SyntheticRows.Console

/-- What is open while the program runs: the log file, and the bytes on their way to standard output. -/
structure Open where
  log : Option IO.FS.Handle := none
  buffer : ByteArray := ByteArray.empty

abbrev Session := StateT Open IO

def bufferLimit : Nat := 65536

/-- The number of an error. Some calls report it with a minus sign. -/
def errorNumber (code : UInt32) : Nat :=
  min code.toNat (-code).toNat

/-- The fault that an error of the system means. -/
def faultOf : IO.Error → IoFault
  | .alreadyExists _ code _ | .otherError code _ | .resourceBusy code _ | .resourceVanished code _
  | .unsupportedOperation code _ | .hardwareFault code _ | .unsatisfiedConstraints code _
  | .illegalOperation code _ | .protocolError code _ | .timeExpired code _ | .interrupted _ code _
  | .noFileOrDirectory _ code _ | .invalidArgument _ code _ | .permissionDenied _ code _
  | .resourceExhausted _ code _ | .inappropriateType _ code _ | .noSuchThing _ code _ =>
    .system (errorNumber code)
  | error => .stated .uncategorized (toString error)

def attempt {α : Type} (action : IO α) : IO (Except IoFault α) := do
  match ← action.toBaseIO with
  | .ok value => return .ok value
  | .error error => return .error (faultOf error)

/-- The fault of an action, if it has one. -/
def faultOf? (action : IO Unit) : IO (Option IoFault) := do
  match ← attempt action with
  | .ok _ => return none
  | .error fault => return some fault

/-- Passes the buffered bytes on to standard output. -/
def drain : Session (Option IoFault) := do
  let state ← get
  if state.buffer.isEmpty then return none
  set { state with buffer := ByteArray.empty }
  faultOf? do
    let out ← IO.getStdout
    out.write state.buffer
    out.flush

def now : IO Instant := do
  let t ← Std.Time.PlainDateTime.now
  return {
    date := ⟨t.year.toInt, t.month.toNat, t.day.toNat⟩
    hour := t.hour.toNat
    minute := t.minute.toNat
    second := t.second.toNat
    nanosecond := t.nanosecond.toNat }

def randomSeed : IO Seed := do
  let bytes ← IO.getRandomBytes 8
  return bytes.foldl (fun seed byte => seed <<< 8 ||| byte.toUInt64) 0

instance : Host Session where
  write bytes := do
    modify fun state => { state with buffer := bytes.foldl ByteArray.push state.buffer }
    if (← get).buffer.size < bufferLimit then return .took bytes.length
    match ← drain with
    | none => return .took bytes.length
    | some fault => return .failed fault
  flush := drain
  logFilter := IO.getEnv "RUST_LOG"
  openLog path := do
    match ← attempt (IO.FS.Handle.mk path .append) with
    | .ok handle => modify fun state => { state with log := some handle }; return none
    | .error fault => return some fault
  appendLog line := do
    match (← get).log with
    | some handle =>
      let _ ← faultOf? do
        handle.putStr (String.ofList line)
        handle.flush
    | none => return
  complain line := do
    (← IO.getStderr).putStr (String.ofList line)
  readText path := do
    match ← attempt (IO.FS.readBinFile path) with
    | .error fault => return .error fault
    | .ok bytes =>
      match String.fromUTF8? bytes with
      | some text => return .ok text
      | none => return .error .notText
  writeText path text := faultOf? do
    let handle ← IO.FS.Handle.mk path .write
    handle.putStr (String.ofList text)
    handle.flush
  occasion := do
    let bytes ← IO.getRandomBytes 16
    return { runId := RunId.ofBytes bytes.toList, startedAt := ← now, randomSeed := ← randomSeed }
  milliseconds := return UInt64.ofNat (← IO.monoMsNow)
  now := now

end SyntheticRows.Console

def main (args : List String) : IO UInt32 := do
  let (outcome, _) ← (Program.execute args : Console.Session Program.Outcome).run {}
  if let some notice := outcome.notice? then (← IO.getStdout).putStr notice
  if let some complaint := outcome.complaint? then (← IO.getStderr).putStr complaint
  return outcome.exitCode
