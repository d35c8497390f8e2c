import SyntheticRows.Json.Number
import SyntheticRows.Json.Skip
import SyntheticRows.Vocabulary

/-!
Reading records and choices from JSON. The members of a record may come in any order, each once, between
members of other names, which are skipped; or the record is a list of all its values. A choice is the
name of an alternative, or an object whose one member has that name.
-/

namespace SyntheticRows.Json

/-! ### Records -/

/-- The members of a record in order: for each its name, how its value is read, and the value it has
    when it is absent, if it may be. -/
inductive Members : List Type → Type 1
  | nil : Members []
  | cons {α : Type} {ts : List Type} (name : String) (read : Reader α) (absent : Option α)
      (rest : Members ts) : Members (α :: ts)

/-- The values that were met so far. -/
def Slots : List Type → Type
  | [] => Unit
  | α :: ts => Option α × Slots ts

/-- The values of all members. -/
def Values : List Type → Type
  | [] => Unit
  | α :: ts => α × Values ts

namespace Members

def none : {ts : List Type} → Members ts → Slots ts
  | _, nil => ()
  | _, cons _ _ _ rest => (Option.none, rest.none)

/-- Reads the value of the member with a name into its slot, after the name. Gives nothing if no member
    has the name. -/
def fill? : {ts : List Type} → Members ts → Slots ts → (name : String) → List Char →
    Option (Except Fault (Slots ts × List Char))
  | _, nil, _, _, _ => Option.none
  | _, cons own read _ rest, (slot, slots), name, s =>
    if own = name then
      some do
        if slot.isSome then throw (.duplicateField own)
        let s ← expect ':' s
        let (value, s) ← read s
        return ((some value, slots), s)
    else
      (rest.fill? slots name s).map fun filled => do
        let (slots, s) ← filled
        return ((slot, slots), s)

/-- Reads one member of an object: a known one into its slot, any other to be forgotten. -/
def entry {ts : List Type} (members : Members ts) (slots : Slots ts) : Reader (Slots ts) := fun s => do
  let (name, s) ← string s
  match members.fill? slots name s with
  | some filled => filled
  | Option.none =>
    let s ← expect ':' s
    let s ← skipValue s
    return (slots, s)

/-- The values of all members, or the first member that is missing. -/
def complete : {ts : List Type} → Members ts → Slots ts → Except Fault (Values ts)
  | _, nil, _ => .ok ()
  | _, cons name _ absent rest, (slot, slots) =>
    match slot.or absent with
    | some value => do return (value, ← rest.complete slots)
    | Option.none => .error (.missingField name)

/-- Reads the values from a list, after its opening bracket: all of them, in order. -/
def items : {ts : List Type} → Members ts → (first : Bool) → Reader (Values ts)
  | _, nil, _, s => do
    let s ← expect ']' s
    return ((), s)
  | _, cons _ read _ rest, first, s => do
    let s ← if first then pure s else expect ',' s
    let (value, s) ← read s
    let (values, s) ← rest.items false s
    return ((value, values), s)

end Members

/-- Reads a record, from an object or from a list. -/
def record {α : Type} {ts : List Type} (members : Members ts) (make : Values ts → α) : Reader α := fun s =>
  match skipBlanks s with
  | '\x7b' :: s => do
    let (slots, s) ← enclosed '\x7d' members.entry members.none s
    return (make (← members.complete slots), s)
  | '[' :: s => do
    let (values, s) ← members.items true s
    return (make values, s)
  | _ => .error .malformed

/-! ### Choices -/

/-- Reads a choice between alternatives: a name that stands alone, or a name with content. -/
def choice {α : Type} (names : List String) (alone : String → Option α) (content : String → Reader α) :
    Reader α := fun s =>
  match skipBlanks s with
  | '"' :: _ => do
    let (name, s) ← string s
    if name ∉ names then throw (.unknownVariant name names)
    match alone name with
    | some value => return (value, s)
    | none => throw .malformed
  | '\x7b' :: s => do
    let (name, s) ← string s
    if name ∉ names then throw (.unknownVariant name names)
    let s ← expect ':' s
    let (value, s) ← content name s
    let s ← expect '\x7d' s
    return (value, s)
  | _ => .error .malformed

/-- Reads a label of a vocabulary: as it is, or as a name with null as its content. -/
def label {α : Type} [Vocabulary α] : Reader α :=
  choice ((Vocabulary.all : List α).map Vocabulary.label) Vocabulary.find? fun name s => do
    let (_, s) ← nullWord s
    match Vocabulary.find? name with
    | some value => return (value, s)
    | none => throw .malformed

end SyntheticRows.Json
