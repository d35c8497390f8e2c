import SyntheticRows.Digits

/-!
Reading whole numbers of 64 bits as people write them on a command line: decimal digits with an optional
plus sign before them.
-/

namespace SyntheticRows.Numeral

/-- Why a text is no such number. -/
inductive Fault
  | empty
  | invalidDigit
  | overflow
deriving DecidableEq, Repr

def max : Nat :=
  UInt64.size - 1

/-- Reads digits from the left, up to the first character that is none or the first digit that is too
    much. -/
def digits (value : Nat) : List Char → Except Fault Nat
  | [] => .ok value
  | c :: rest =>
    if !c.isDigit then .error .invalidDigit
    else
      let value := value * 10 + Digits.decimal c
      if max < value then .error .overflow else digits value rest

def ofChars : List Char → Except Fault Nat
  | [] => .error .empty
  | ['+'] => .error .invalidDigit
  | '+' :: rest => digits 0 rest
  | s => digits 0 s

/-- The number of a text. -/
def parse (s : String) : Except Fault UInt64 :=
  (ofChars s.toList).map UInt64.ofNat

end SyntheticRows.Numeral
