/-!
Patterns of texts, which conditions on the fields of log events may use. No event is ever matched with
one, so a pattern keeps only what decides whether it is sound: which characters its parts stand for is
not known in full, and a part that needs such knowledge is refused.
-/

namespace SyntheticRows.Log

/-! ### Switches -/

/-- What can be switched on and off within a pattern. -/
inductive Switch
  | ignoresCase
  | eachLine
  | dotTakesAll
  | shortest
  | carriageReturns
  | characters
  | spaced
deriving DecidableEq

namespace Switch

def ofLetter? (c : Char) : Option Switch :=
  match c with
  | 'i' => some ignoresCase
  | 'm' => some eachLine
  | 's' => some dotTakesAll
  | 'U' => some shortest
  | 'R' => some carriageReturns
  | 'u' => some characters
  | 'x' => some spaced
  | _ => none

end Switch

/-- The switches that are set at one place, none of them twice. -/
structure Switches where
  on : List Switch := []
  off : List Switch := []
deriving DecidableEq

namespace Switches

/-- The state of a switch after the setting. -/
def state (s : Switches) (switch : Switch) (before : Bool) : Bool :=
  if switch ∈ s.on then true
  else if switch ∈ s.off then false
  else before

end Switches

/-- How the parts of a pattern are meant. -/
structure PatternMode where
  /-- Whether a pattern is about characters, else about bytes. -/
  characters : Bool := true
  ignoresCase : Bool := false
deriving DecidableEq

namespace PatternMode

def set (m : PatternMode) (s : Switches) : PatternMode where
  characters := s.state .characters m.characters
  ignoresCase := s.state .ignoresCase m.ignoresCase

end PatternMode

/-! ### Parts -/

/-- What one character or one escape stands for. -/
inductive PatternItem
  | char (c : Char)
  /-- A character by its two hexadecimal digits. -/
  | byte (c : Char)
  /-- Digits, blanks or the characters of words, or all others. -/
  | kind (negated : Bool)
  | any
  /-- The beginning or the end of a line or of the text. -/
  | edge
  /-- The beginning or the end of a word, or a place that is neither. -/
  | wordEdge
deriving DecidableEq

namespace PatternItem

/-- Whether an item has a meaning. The case of characters and their kinds beyond ASCII are not known,
    and bytes beyond ASCII are no text alone. -/
def isSound (m : PatternMode) : PatternItem → Bool
  | char _ => !(m.characters && m.ignoresCase)
  | byte c => if m.characters then !m.ignoresCase else c.toNat < 0x80
  | kind negated => !m.characters && !negated
  | any => m.characters
  | edge => true
  | wordEdge => !m.characters

end PatternItem

/-- A set of characters between brackets. -/
inductive PatternSet
  | nothing
  | char (c : Char)
  | range (first last : Char)
  /-- Digits, blanks or the characters of words, or all others. -/
  | kind (negated : Bool)
  /-- A class of ASCII characters by its name, or all others. -/
  | named (negated : Bool)
  | bracket (negated : Bool) (inner : PatternSet)
  | union (parts : List PatternSet)
  /-- What two sets have in common, or what only one of them has. -/
  | combined (left right : PatternSet)

namespace PatternSet

/-- Whether a set may hold a character that is written in it. -/
def admits (m : PatternMode) (c : Char) : Bool :=
  if m.characters then !m.ignoresCase else c.toNat < 0x80

mutual

/-- Whether a set has a meaning. Sets of bytes stay within ASCII, so none of them is negated. -/
def isSound (m : PatternMode) : PatternSet → Bool
  | nothing => true
  | char c => admits m c
  | range first last => admits m first && admits m last
  | kind negated => !m.characters && !negated
  | named negated => if m.characters then !m.ignoresCase else !negated
  | bracket negated inner => (m.characters || !negated) && isSound m inner
  | union parts => areSound m parts
  | combined left right => isSound m left && isSound m right

def areSound (m : PatternMode) : List PatternSet → Bool
  | [] => true
  | part :: parts => isSound m part && areSound m parts

end

mutual

/-- How many brackets, unions and combinations lie within each other at most. -/
def depth : PatternSet → Nat
  | bracket _ inner => depth inner + 1
  | union parts => depths parts + 1
  | combined left right => max (depth left) (depth right) + 1
  | _ => 0

def depths : List PatternSet → Nat
  | [] => 0
  | part :: parts => max (depth part) (depths parts)

end

/-- The set of an item, if it stands for characters. -/
def ofItem? : PatternItem → Option PatternSet
  | .char c | .byte c => some (char c)
  | .kind negated => some (kind negated)
  | .any | .edge | .wordEdge => none

/-- The union of parts. A part alone is its own union. -/
def ofParts : List PatternSet → PatternSet
  | [] => nothing
  | [part] => part
  | parts => union parts

end PatternSet

/-! ### Patterns -/

inductive Pattern
  | nothing
  | item (i : PatternItem)
  | set (s : PatternSet)
  /-- Switches for what follows in the same group. -/
  | switches (s : Switches)
  | repeated (pattern : Pattern)
  /-- A group with switches for itself. -/
  | group (s : Switches) (pattern : Pattern)
  | sequence (parts : List Pattern)
  | choice (branches : List Pattern)

namespace Pattern

mutual

/-- The mode after a pattern that has a meaning, read from left to right. -/
def modeAfter? (m : PatternMode) : Pattern → Option PatternMode
  | nothing => some m
  | item i => if i.isSound m then some m else none
  | set s => if s.isSound m then some m else none
  | switches s => some (m.set s)
  | repeated pattern => modeAfter? m pattern
  | group s pattern => (modeAfter? (m.set s) pattern).map fun _ => m
  | sequence parts => modeAfterAll? m parts
  | choice branches => modeAfterAll? m branches

def modeAfterAll? (m : PatternMode) : List Pattern → Option PatternMode
  | [] => some m
  | part :: parts => (modeAfter? m part).bind (modeAfterAll? · parts)

end

mutual

/-- How many repetitions, groups, sequences, choices and sets lie within each other at most. -/
def depth : Pattern → Nat
  | set s => s.depth
  | repeated pattern | group _ pattern => depth pattern + 1
  | sequence parts => depths parts + 1
  | choice branches => depths branches + 1
  | _ => 0

def depths : List Pattern → Nat
  | [] => 0
  | part :: parts => max (depth part) (depths parts)

end

def maxDepth : Nat := 250

def isSound (p : Pattern) : Bool :=
  (modeAfter? {} p).isSome && p.depth ≤ maxDepth

/-- Whether a repetition sign may follow. -/
def isRepeatable : Pattern → Bool
  | nothing | switches _ => false
  | _ => true

/-- The sequence of parts. A part alone is its own sequence. -/
def ofParts : List Pattern → Pattern
  | [] => nothing
  | [part] => part
  | parts => sequence parts

end Pattern

end SyntheticRows.Log
