/-!
Wordings that say which names were expected.
-/

namespace SyntheticRows.Wording

/-- A name, marked as one. -/
def name (n : String) : String :=
  "`" ++ n ++ "`"

/-- What was expected, when it was one of some names. -/
def expected : List String → String
  | [a] => "expected " ++ name a
  | [a, b] => "expected " ++ name a ++ " or " ++ name b
  | names => "expected one of " ++ ", ".intercalate (names.map name)

def unknownVariant (variant : String) (names : List String) : String :=
  "unknown variant " ++ name variant ++ ", " ++ expected names

def unknownField (field : String) (names : List String) : String :=
  "unknown field " ++ name field ++ ", " ++ expected names

def missingField (field : String) : String :=
  "missing field " ++ name field

def duplicateField (field : String) : String :=
  "duplicate field " ++ name field

end SyntheticRows.Wording
