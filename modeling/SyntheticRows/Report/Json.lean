import SyntheticRows.Instant.Reader
import SyntheticRows.Options.Json
import SyntheticRows.Report

/-!
Reports as JSON.
-/

namespace SyntheticRows

namespace PassReport

def toJson (r : PassReport) : Json :=
  .object
    [("pass", r.pass.toJson),
      ("rows", .int r.rows.toNat),
      ("bytes_written", .int r.bytesWritten.toNat),
      ("duration_ms", .int r.milliseconds.toNat)]

def members : Json.Members [Pass, UInt64, UInt64, UInt64] :=
  .cons "pass" Json.label none <|
  .cons "rows" Json.uint64 none <|
  .cons "bytes_written" Json.uint64 none <|
  .cons "duration_ms" Json.uint64 none .nil

def fromJson : Json.Reader PassReport :=
  Json.record members fun (pass, rows, bytesWritten, milliseconds, _) =>
    { pass, rows, bytesWritten, milliseconds }

end PassReport

namespace Instant

def toJson (t : Instant) : Json :=
  .text (String.ofList t.text)

def fromJson : Json.Reader Instant := fun s => do
  let (text, s) ← Json.string s
  match parse? text.toList with
  | some t => return (t, s)
  | none => throw .malformed

end Instant

namespace Report

def toJson (r : Report) : Json :=
  .object
    [("run_id", .text r.runId),
      ("seed", .int r.seed.toNat),
      ("started_at", r.startedAt.toJson),
      ("passes", .list (r.passes.map PassReport.toJson)),
      ("duration_ms", .int r.milliseconds.toNat)]

def members : Json.Members [String, UInt64, Instant, List PassReport, UInt64] :=
  .cons "run_id" Json.string none <|
  .cons "seed" Json.uint64 none <|
  .cons "started_at" Instant.fromJson none <|
  .cons "passes" (Json.array PassReport.fromJson) none <|
  .cons "duration_ms" Json.uint64 none .nil

def fromJson : Json.Reader Report :=
  Json.record members fun (runId, seed, startedAt, passes, milliseconds, _) =>
    { runId, seed, startedAt, passes, milliseconds }

end Report

end SyntheticRows
