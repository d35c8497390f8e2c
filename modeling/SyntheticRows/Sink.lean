import SyntheticRows.Fault

/-!
Sinks: places that take bytes call by call, any number at a time, and may fail. Writing all of a text
offers the rest again until nothing is left, and gives up when a call takes nothing.
-/

namespace SyntheticRows

abbrev Bytes := List UInt8

/-- The bytes of a text. -/
def utf8 (text : List Char) : Bytes :=
  text.flatMap String.utf8EncodeChar

/-- The outcome of offering bytes. -/
inductive Reply
  /-- The first `count` bytes were taken. -/
  | took (count : Nat)
  | failed (fault : IoFault)
deriving DecidableEq, Repr

/-- The operations of a sink, as steps of a computation. -/
class Outlet (m : Type → Type) where
  /-- Offers bytes until the sink does not break off. -/
  write : Bytes → m Reply
  flush : m (Option IoFault)

section

variable {m : Type → Type} [Monad m] [Outlet m]

/-- Writes all of the bytes. Gives how many were taken, and the fault if there was one. -/
def writeAll (bytes : Bytes) : m (Nat × Option IoFault) :=
  if _h : bytes = [] then
    pure (0, none)
  else do
    match ← Outlet.write bytes with
    | .failed fault => pure (0, some fault)
    | .took 0 => pure (0, some .nothingTaken)
    | .took (count + 1) =>
      let (more, fault) ← writeAll (bytes.drop (count + 1))
      pure (min (count + 1) bytes.length + more, fault)
termination_by bytes.length
decreasing_by
  have := List.length_pos_iff.mpr _h
  simp only [List.length_drop]
  omega

/-- Writes several texts one after the other, up to the first fault. -/
def writeEach : List Bytes → m (Nat × Option IoFault)
  | [] => pure (0, none)
  | bytes :: rest => do
    let (count, fault) ← writeAll bytes
    match fault with
    | some fault => pure (count, some fault)
    | none =>
      let (more, fault) ← writeEach rest
      pure (count + more, fault)

end

/-! ### Devices -/

/-- The answer of a device to one call. -/
inductive Answer
  | took (count : Nat)
  | interrupted
  | failed (fault : IoFault)
deriving DecidableEq, Repr

/-- A sink as a machine. It may interrupt a call, but not for ever: each interruption uses up some of its
    patience. -/
structure Device (σ : Type) where
  write : σ → Bytes → Answer × σ
  flush : σ → Option IoFault × σ
  patience : σ → Nat
  patience_lt : ∀ {s t : σ} {bytes : Bytes}, write s bytes = (.interrupted, t) → patience t < patience s

namespace Device

/-- Repeats a call until it is not interrupted. -/
def offer {σ : Type} (d : Device σ) (s : σ) (bytes : Bytes) : Reply × σ :=
  match _h : d.write s bytes with
  | (.took count, t) => (.took count, t)
  | (.failed fault, t) => (.failed fault, t)
  | (.interrupted, t) => d.offer t bytes
termination_by d.patience s
decreasing_by exact d.patience_lt _h

end Device

end SyntheticRows
