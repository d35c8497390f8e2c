import SyntheticRows.Run

/-!
Recordings: runs into a device, with everything that passes between the run and the device written down
in order.
-/

namespace SyntheticRows

/-- One thing that happened in a run. -/
inductive Happening
  | offered (bytes : Bytes) (reply : Reply)
  | flushed (fault : Option IoFault)
  | noted (event : RunEvent)

namespace Happening

/-- The bytes that the device took. -/
def accepted : Happening → Bytes
  | offered bytes (.took count) => bytes.take count
  | _ => []

def isFlush : Happening → Bool
  | flushed _ => true
  | _ => false

end Happening

/-- A device in a state, and what happened so far, the newest first. -/
structure Recording (σ : Type) where
  device : Device σ
  state : σ
  reversed : List Happening := []

namespace Recording

variable {σ : Type}

/-- What happened, in order. -/
def happenings (r : Recording σ) : List Happening :=
  r.reversed.reverse

/-- The bytes that the device took, in order. -/
def stored (r : Recording σ) : Bytes :=
  r.happenings.flatMap (·.accepted)

/-- How many times the device was flushed. -/
def flushes (r : Recording σ) : Nat :=
  r.reversed.countP (·.isFlush)

def add (r : Recording σ) (happening : Happening) : Recording σ :=
  { r with reversed := happening :: r.reversed }

instance : Outlet (StateM (Recording σ)) where
  write bytes := fun r =>
    let (reply, state) := r.device.offer r.state bytes
    (reply, { r with state }.add (.offered bytes reply))
  flush := fun r =>
    let (fault, state) := r.device.flush r.state
    (fault, { r with state }.add (.flushed fault))

/-- A recorded run hears no clock tick. -/
instance : Observer (StateM (Recording σ)) where
  note event := modify (·.add (.noted event))
  clock := pure 0

end Recording

/-- A run into a device, with its recording. -/
def runInto {σ : Type} (device : Device σ) (state : σ) (o : Options) (occasion : Occasion) :
    Except RunFault Report × Recording σ :=
  StateT.run (m := Id) (run o occasion) { device, state }

end SyntheticRows
