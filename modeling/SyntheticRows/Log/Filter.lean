import SyntheticRows.Log
import SyntheticRows.Log.Pattern.Reader
import SyntheticRows.Numeral

/-!
Filters for log events. A filter is a list of directives, each of which sets how much detail is let
through from the targets that begin with a name. Of the directives that match an event the most specific
one decides, and an event that none matches is dropped.
-/

namespace SyntheticRows.Log

/-- How much detail is let through: nothing, or the events up to a level. -/
abbrev Limit := Nat

namespace Limit

def off : Limit := 0

def ofLevel (level : Level) : Limit := level.detail

/-- A limit by the name of a level in any case, or by its number. No text at all means errors only. -/
def parse? (s : String) : Option Limit :=
  match Numeral.parse s with
  | .ok n => if n.toNat ≤ 5 then some n.toNat else none
  | .error _ =>
    match s.toLower with
    | "" => some (ofLevel .error)
    | "off" => some off
    | "error" => some (ofLevel .error)
    | "warn" => some (ofLevel .warn)
    | "info" => some (ofLevel .info)
    | "debug" => some (ofLevel .debug)
    | "trace" => some (ofLevel .trace)
    | _ => none

end Limit

structure Directive where
  limit : Limit
  /-- What the target of an event begins with, if that matters. -/
  target : Option String := none
  /-- The fields that an event has. -/
  fields : List String := []
  /-- Whether the directive is about stretches of time only, of which a program may have none. -/
  isSpan : Bool := false
deriving DecidableEq

namespace Directive

/-- Whether a directive has a say about an event. -/
def covers (d : Directive) (e : Event) : Bool :=
  !d.isSpan && d.fields.all (· ∈ e.fieldNames) &&
    match d.target with
    | none => true
    | some target => target.toList.isPrefixOf e.target.toList

/-- Whether a directive gives way to another one. The longer target decides, then the number of fields,
    then the order of the targets and of the fields; of directives about the same events the later one
    stays. -/
def yieldsTo (d later : Directive) : Bool :=
  let size (d : Directive) : Nat := d.target.elim 0 fun target => target.utf8ByteSize + 1
  let target (d : Directive) : List Char := (d.target.getD "").toList
  if size d ≠ size later then size d < size later
  else if d.fields.length ≠ later.fields.length then d.fields.length < later.fields.length
  else if target d ≠ target later then target d < target later
  else ¬later.fields < d.fields

/-! ### Text -/

/-- How far a directive is read. Places count the bytes of its text without outer blanks. -/
inductive Reading
  | start
  /-- In a level or a target, which began at a place. -/
  | word (begin : Nat)
  /-- After an opening bracket. -/
  | span (begin : Nat)
  /-- After an opening brace or a comma in it. -/
  | field (begin : Nat)
  | fieldsEnd
  | spanEnd
  /-- After the equals sign. -/
  | level (begin : Nat)

/-- A character that a directive may begin with, if it does not begin with a bracket. -/
def isFirst (c : Char) : Bool :=
  CharClass.isAlphabetic c || CharClass.isNumeric c || c == '-' || c == ':' || c == '_'

/-- Whether a text has digits with at most one point among or beside them, and then perhaps an
    exponent. -/
def isPlainNumber (s : List Char) : Bool :=
  let whole := s.takeWhile Char.isDigit
  let rest := s.drop whole.length
  let fraction := if rest.head? = some '.' then rest.tail.takeWhile Char.isDigit else []
  let rest := if rest.head? = some '.' then rest.tail.drop fraction.length else rest
  whole ++ fraction != [] &&
    match rest with
    | [] => true
    | e :: rest =>
      let digits := if rest.head? = some '-' ∨ rest.head? = some '+' then rest.tail else rest
      (e == 'e' || e == 'E') && digits != [] && digits.all Char.isDigit

/-- Whether a text is a number, perhaps with a sign, or a word for infinity or for no number. -/
def isNumber (s : List Char) : Bool :=
  let unsigned := if s.head? = some '-' ∨ s.head? = some '+' then s.tail else s
  (String.ofList unsigned).toLower ∈ ["inf", "infinity", "nan"] || isPlainNumber unsigned

/-- Whether a text is a condition on the value of a field: a number or a pattern. -/
def isCondition (s : List Char) : Bool :=
  isNumber s || Pattern.accepts s

/-- A field with the condition on its value, if it has one. A condition makes the directive one about
    stretches of time. The text is cut at its equals signs, and only the first two parts count. -/
def addField (d : Directive) (text : List Char) : Option Directive :=
  let name := text.takeWhile (· != '=')
  let d' := { d with fields := d.fields ++ [String.ofList name] }
  match text.drop name.length with
  | [] => if text = [] then none else some d'
  | _ :: rest => if isCondition (rest.takeWhile (· != '=')) then some { d' with isSpan := true } else none

/-- A text without its first bytes. A character that is cut goes as a whole. -/
def dropBytes : Nat → List Char → List Char
  | 0, s => s
  | _, [] => []
  | count, c :: rest => dropBytes (count - c.utf8Size) rest

/-- The first bytes of a text. A character that is cut stays as a whole. -/
def takeBytes : Nat → List Char → List Char
  | 0, _ => []
  | _, [] => []
  | count, c :: rest => c :: takeBytes (count - c.utf8Size) rest

/-- Reads a character at a place. Parts of the text are cut out of the whole text, outer blanks
    included. -/
def advance (whole : List Char) (d : Directive) (reading : Reading) (place : Nat) (c : Char) :
    Option (Directive × Reading) :=
  let part (begin : Nat) : List Char := takeBytes (place - begin) (dropBytes begin whole)
  match reading with
  | .start =>
    if c = '[' then some (d, .span (place + 1))
    else if isFirst c then some (d, .word place)
    else none
  | .word begin =>
    if c = '=' then some ({ d with target := some (String.ofList (part begin)) }, .level (place + 1))
    else if c = '[' then some ({ d with target := some (String.ofList (part begin)) }, .span (place + 1))
    else some (d, reading)
  | .span begin =>
    if c = ']' then some ({ d with isSpan := true }, .spanEnd)
    else if c = '\x7b' then some ({ d with isSpan := d.isSpan || part begin != [] }, .field (place + 1))
    else some (d, reading)
  | .field begin =>
    if c = '\x7d' then (d.addField (part begin)).map (·, .fieldsEnd)
    else if c = ',' then (d.addField (part begin)).map (·, .field (place + 1))
    else some (d, reading)
  | .fieldsEnd => if c = ']' then some (d, .spanEnd) else none
  | .spanEnd => if c = '=' then some (d, .level (place + 1)) else none
  | .level _ => some (d, reading)

/-- Finishes a directive at the end of its text. A word alone is a level if it can be one, else a
    target of which all is let through. -/
def finish? (whole : List Char) (d : Directive) : Reading → Option Directive
  | .word begin =>
    let word := String.ofList (dropBytes begin whole)
    match Limit.parse? word with
    | some limit => some { d with limit, target := none }
    | none => some { d with target := some word }
  | .level begin =>
    match dropBytes begin whole with
    | [] => some d
    | level => (Limit.parse? (String.ofList level)).map fun limit => { d with limit }
  | .spanEnd => some d
  | _ => none

def readFrom (whole : List Char) (d : Directive) (reading : Reading) (place : Nat) :
    List Char → Option Directive
  | [] => finish? whole d reading
  | c :: rest => do
    let (d, reading) ← advance whole d reading place c
    readFrom whole d reading (place + c.utf8Size) rest

def trim (s : List Char) : List Char :=
  ((s.dropWhile CharClass.isSpace).reverse.dropWhile CharClass.isSpace).reverse

def parse? (s : String) : Option Directive :=
  readFrom s.toList { limit := Limit.ofLevel .trace } .start 0 (trim s.toList)

end Directive

/-! ### Filters -/

structure Filter where
  directives : List Directive

namespace Filter

def ofLevel (level : Level) : Filter :=
  ⟨[{ limit := .ofLevel level }]⟩

/-- A filter by its text: directives separated by commas. One without directives lets errors through. -/
def parse? (s : String) : Option Filter := do
  let parts := (s.splitOn ",").filter (· ≠ "")
  let directives ← parts.mapM Directive.parse?
  return if directives = [] then ofLevel .error else ⟨directives⟩

/-- The filter that the environment asks for, or a default where it asks for none or cannot be
    understood: warnings and errors, and with progress shown also information. -/
def ofEnvironment (asked : Option String) (showsProgress : Bool) : Filter :=
  (asked.bind parse?).getD (ofLevel (if showsProgress then .info else .warn))

/-- Of two directives the more specific one. -/
def better (d later : Directive) : Directive :=
  if d.yieldsTo later then later else d

/-- The directive that decides about an event. -/
def decisive? (f : Filter) (e : Event) : Option Directive :=
  (f.directives.filter (·.covers e)).foldl (fun best d => some (best.elim d (better · d))) none

def allows (f : Filter) (e : Event) : Bool :=
  (f.decisive? e).any fun d => e.level.detail ≤ d.limit

end Filter

end SyntheticRows.Log
