import SyntheticRows.Digits

/-!
Identifiers of runs: sixteen random bytes with a mark of their version, in hexadecimal digits.
-/

namespace SyntheticRows.RunId

/-- A byte of an identifier at a place. The seventh tells the version, the ninth the variant. -/
def marked (place : Nat) (byte : UInt8) : UInt8 :=
  if place = 6 then byte &&& 0x0f ||| 0x40
  else if place = 8 then byte &&& 0x3f ||| 0x80
  else byte

/-- The identifier of some random bytes; bytes that are missing are zero. -/
def ofBytes (bytes : List UInt8) : String :=
  let byte (place : Nat) : List Char :=
    let mark := if place ∈ [4, 6, 8, 10] then ['-'] else []
    mark ++ Digits.ofByte (marked place (bytes.getD place 0))
  String.ofList ((List.range 16).flatMap byte)

end SyntheticRows.RunId
