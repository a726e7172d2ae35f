import BlockLang.Text.Parts

/-!
# Error reports

An error is reported with the line of the source that it is about, and a caret under its column. If
the source has no such line, the report only names the place.

## Main definitions

* `linesOf source`: the lines of a source
* `annotate source file message line col`: the report of an error
-/

namespace BlockLang

/-- The lines of a source. -/
def linesOf (source : String) : List String := (Text.parts '\n' source.toList).map String.ofList

/-- A text of `n` blanks. -/
def blanks (n : Nat) : String := String.ofList (List.replicate n ' ')

/-- The line of a source, counted from one. -/
def lineAt? (source : String) (line : Int) : Option String :=
  if line < 1 then none else (linesOf source)[(line - 1).toNat]?

/-- The report of an error at a line and a column. -/
def annotate (source file message : String) (line col : Int) : String :=
  match lineAt? source line with
  | none =>
    "error: " ++ message ++ "\n --> " ++ file ++ ":" ++ toString line ++ ":" ++ toString col
  | some text =>
    let number := toString line
    let margin := blanks number.length
    "error: " ++ message ++ "\n" ++
      " " ++ margin ++ "--> " ++ file ++ ":" ++ number ++ ":" ++ toString col ++ "\n" ++
      " " ++ margin ++ " |\n" ++
      " " ++ number ++ " | " ++ text ++ "\n" ++
      " " ++ margin ++ " | " ++ blanks (col - 1).toNat ++ "^"

end BlockLang
