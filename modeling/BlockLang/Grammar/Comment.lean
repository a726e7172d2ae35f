/-!
# Comments

A grammar file has two kinds of comments. A block comment goes from an opening sign to the next
closing sign, on the same line or not; an opening sign that is never closed is plain text. A line
comment goes from two hyphens to the end of the line, whatever stands between.

## Main definitions

* `withoutBlockComments cs`: the text without block comments
* `withoutLineComments cs`: the text without line comments
-/

namespace BlockLang.Grammar

/-- The closing sign of a block comment occurs. -/
def closesComment : List Char → Bool
  | [] => false
  | c :: cs => (c == '*' && cs.head? == some ')') || closesComment cs

/-- Where a walk over block comments stands. -/
inductive BlockWalk
  | outside
  | opening
  | inside
  | closing
  deriving DecidableEq, Repr

/-- The text without block comments, the walk being somewhere in or out of one. -/
def dropBlockComments : BlockWalk → List Char → List Char
  | _, [] => []
  | .outside, c :: cs =>
    if c == '(' && cs.head? == some '*' && closesComment cs.tail then dropBlockComments .opening cs
    else c :: dropBlockComments .outside cs
  | .opening, _ :: cs => dropBlockComments .inside cs
  | .inside, c :: cs =>
    if c == '*' && cs.head? == some ')' then dropBlockComments .closing cs
    else dropBlockComments .inside cs
  | .closing, _ :: cs => dropBlockComments .outside cs

/-- The text without block comments. -/
def withoutBlockComments (cs : List Char) : List Char := dropBlockComments .outside cs

/-- The text without line comments, given whether the walk is in one. -/
def dropLineComments : Bool → List Char → List Char
  | _, [] => []
  | true, c :: cs => if c = '\n' then c :: dropLineComments false cs else dropLineComments true cs
  | false, c :: cs =>
    if c == '-' && cs.head? == some '-' then dropLineComments true cs
    else c :: dropLineComments false cs

/-- The text without line comments. -/
def withoutLineComments (cs : List Char) : List Char := dropLineComments false cs

end BlockLang.Grammar
