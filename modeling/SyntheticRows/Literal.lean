import SyntheticRows.Decimal.Shortest

/-!
SQL literals and tuples of them. Text stands between single quotes with each quote inside it doubled;
expressions such as `now()` are left for the database to evaluate.
-/

namespace SyntheticRows

/-- One value of a row. -/
inductive Literal
  | int (value : Int64)
  | real (value : Binary64)
  | text (value : String)
  /-- An expression, written as it is. -/
  | expression (source : String)
deriving DecidableEq

namespace Literal

/-- The expression for a fresh random identifier. -/
def randomUuidSource : String :=
  "gen_random_uuid()"

def randomUuid : Literal :=
  .expression randomUuidSource

/-- The moment so many minutes after the one at which the statement runs. -/
def minutesFromNow (minutes : UInt64) : Literal :=
  .expression ("now() + interval '" ++ String.ofList (Decimal.numeral minutes.toNat) ++ " minute'")

/-- The text between quotes, with each quote doubled. -/
def quoted (text : List Char) : List Char :=
  '\'' :: (text.flatMap fun c => if c = '\'' then ['\'', '\''] else [c]) ++ ['\'']

/-- The written form. The values that are no finite number are quoted, since a database reads them from
    text only. -/
def render : Literal → List Char
  | .int value => Decimal.signedNumeral value.toInt
  | .real value =>
    if value.isNaN then quoted ['N', 'a', 'N']
    else if value.isInfinite then
      quoted (if value.isNegative then "-Infinity".toList else "Infinity".toList)
    else value.plain
  | .text value => quoted value.toList
  | .expression source => source.toList

/-- The values between parentheses, with a comma and a space between any two. -/
def tuple (values : List Literal) : List Char :=
  '(' :: [',', ' '].intercalate (values.map render) ++ [')']

end Literal

end SyntheticRows
