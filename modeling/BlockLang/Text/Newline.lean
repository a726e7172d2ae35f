/-!
# Line ends

A line may end in a line feed, a carriage return, or both in this order; all three become a line
feed when a file is read.

## Main definitions

* `unifyNewlines cs`: the text with line feeds as its only line ends
-/

namespace BlockLang.Text

/-- The text with line feeds as its only line ends. -/
def unifyNewlines : List Char → List Char
  | [] => []
  | '\r' :: '\n' :: cs => '\n' :: unifyNewlines cs
  | c :: cs => (if c = '\r' then '\n' else c) :: unifyNewlines cs

end BlockLang.Text
