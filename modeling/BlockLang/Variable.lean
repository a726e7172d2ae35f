import BlockLang.Position

/-!
# Variables

A variable has a name, the type of the value it was last given, and the position of the assignment
that declared it.

## Main definitions

* `ValueType`: number, string, or not known
* `Variable`: a name with its type and position
* `Variable.text`: the form in a trace
-/

namespace BlockLang

/-- The type of a value. -/
inductive ValueType
  | number
  | string
  | unknown
  deriving DecidableEq, Repr, Inhabited

namespace ValueType

/-- The name of a type. -/
def name : ValueType → String
  | number => "NUMBER"
  | string => "STRING"
  | unknown => "UNKNOWN"

end ValueType

/-- A name with the type of its value and the position of its declaration. -/
structure Variable where
  identifier : String
  type : ValueType
  position : Position
  deriving DecidableEq, Repr, Inhabited

namespace Variable

/-- The form in a trace: name and type. -/
def text (v : Variable) : String := v.identifier ++ " " ++ v.type.name

end Variable

end BlockLang
