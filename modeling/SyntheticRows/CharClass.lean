/-!
Classes of characters, as ranges of code points.
-/

namespace SyntheticRows

/-- Ranges of code points in rising order, both ends included. -/
abbrev CharClass := List (Nat × Nat)

namespace CharClass

/-- Whether a character is in a class. The first range that does not end before it decides. -/
def contains : CharClass → Char → Bool
  | [], _ => false
  | (first, last) :: rest, c => if c.toNat ≤ last then first ≤ c.toNat else contains rest c

/-- The white space. -/
def space : CharClass :=
  [(0x9, 0xD), (0x20, 0x20), (0x85, 0x85), (0xA0, 0xA0), (0x1680, 0x1680), (0x2000, 0x200A),
    (0x2028, 0x2029), (0x202F, 0x202F), (0x205F, 0x205F), (0x3000, 0x3000)]

def isSpace (c : Char) : Bool :=
  space.contains c

end CharClass

end SyntheticRows
