import SyntheticRows.Sink

/-!
A device that follows a script: it takes no more than a chunk at a time, and shows a fault each time
the number of bytes that it stores reaches the place of the next one.
-/

namespace SyntheticRows

/-- What a scripted device does at the place of a fault. -/
inductive Mishap
  /-- The call fails. -/
  | broken
  /-- The call takes nothing. -/
  | refusal
  /-- The call is interrupted. -/
  | interruption
deriving DecidableEq, Repr

/-- The state of a scripted device. -/
structure Script where
  /-- How many bytes were taken so far. -/
  stored : Nat := 0
  /-- The most bytes that one call takes, if there is a limit. -/
  chunk : Option Nat := none
  /-- The mishaps to come, with the number of stored bytes at which each happens. -/
  mishaps : List (Nat × Mishap) := []
  flushFails : Bool := false

namespace Script

/-- Takes as many bytes as the chunk and the place of the next mishap allow. -/
def take (s : Script) (bytes : Bytes) (room : Nat) : Answer × Script :=
  let count := min (min bytes.length (s.chunk.getD bytes.length)) room
  (.took count, { s with stored := s.stored + count })

def write (s : Script) (bytes : Bytes) : Answer × Script :=
  match s.mishaps with
  | [] => s.take bytes bytes.length
  | (place, mishap) :: rest =>
    if s.stored < place then
      s.take bytes (place - s.stored)
    else
      let s := { s with mishaps := rest }
      match mishap with
      | .broken => (.failed (.stated .brokenPipe "closed"), s)
      | .refusal => (.took 0, s)
      | .interruption => (.interrupted, s)

def flush (s : Script) : Option IoFault × Script :=
  (if s.flushFails then some (.stated .brokenPipe "flush closed") else none, s)

theorem mishaps_lt_of_interrupted {s t : Script} {bytes : Bytes}
    (h : s.write bytes = (.interrupted, t)) : t.mishaps.length < s.mishaps.length := by
  unfold write take at h
  split at h
  · simp at h
  · rename_i hm
    split at h
    · simp at h
    · rw [hm]
      split at h <;> simp at h
      simp [← h]

/-- The device that follows its script. -/
def device : Device Script where
  write := write
  flush := flush
  patience s := s.mishaps.length
  patience_lt h := mishaps_lt_of_interrupted h

end Script

end SyntheticRows
