/-!
# Editor positions

An editor counts lines and characters from zero, the analyser from one. A position of the analyser
that is below one becomes the first of the editor. An editor names no line and no character beyond
a largest one.

## Main definitions

* `EditorPosition`, `EditorRange`: a place and a stretch of a document
* `EditorPosition.checked p`, `EditorRange.checked r`: refuses what an editor cannot name
* `toEditor line col`: the place of a line and column
* `nameRange line col name`: the stretch of a name

## Main results

* `EditorPosition.checked_eq_ok_iff`: when a place is not refused
* `nameRange_start`: the stretch of a name begins at its place
-/

namespace BlockLang.Editor

/-- A place in a document: line and character, counted from zero. -/
structure EditorPosition where
  line : Int
  character : Int
  deriving DecidableEq, Repr

/-- A stretch of a document. -/
structure EditorRange where
  start : EditorPosition
  stop : EditorPosition
  deriving DecidableEq, Repr

/-- The largest line or character that an editor names. -/
def largestCoordinate : Int := 2147483647

/-- The number is one of a line or a character. -/
def isCoordinate (n : Int) : Bool := 0 ≤ n && n ≤ largestCoordinate

/-- Why a place is refused: its line or its character is out of range. -/
inductive PositionError
  | line (n : Int)
  | character (n : Int)
  deriving DecidableEq, Repr

/-- The end of a message about a number that is out of range. -/
def outOfRangeText (n : Int) : String :=
  " should be in range [0:" ++ toString largestCoordinate ++ "], but was " ++ toString n ++ "."

/-- The message about a place that is refused. -/
def PositionError.message : PositionError → String
  | line n => "Position.line" ++ outOfRangeText n
  | character n => "Position.character" ++ outOfRangeText n

/-- The place itself, if an editor can name it. -/
def EditorPosition.checked (p : EditorPosition) : Except PositionError EditorPosition :=
  if !isCoordinate p.line then .error (.line p.line)
  else if !isCoordinate p.character then .error (.character p.character)
  else .ok p

/-- A place is not refused when both its numbers are in range. -/
theorem EditorPosition.checked_eq_ok_iff {p q : EditorPosition} :
    p.checked = .ok q ↔ p = q ∧ isCoordinate p.line ∧ isCoordinate p.character := by
  cases hl : isCoordinate p.line <;> cases hc : isCoordinate p.character <;>
    simp [EditorPosition.checked, hl, hc]

/-- The stretch itself, if an editor can name both its ends. -/
def EditorRange.checked (r : EditorRange) : Except PositionError EditorRange := do
  pure ⟨← r.start.checked, ← r.stop.checked⟩

/-- The place of a line and column. -/
def toEditor (line col : Int) : EditorPosition := ⟨max 0 (line - 1), max 0 (col - 1)⟩

/-- The stretch of `length` characters from a place on. -/
def stretch (start : EditorPosition) (length : Int) : EditorRange :=
  ⟨start, ⟨start.line, start.character + length⟩⟩

/-- The stretch of a name that stands at a line and column. -/
def nameRange (line col : Int) (name : String) : EditorRange :=
  stretch (toEditor line col) name.length

/-- The stretch of a name begins at its place. -/
theorem nameRange_start (line col : Int) (name : String) :
    (nameRange line col name).start = toEditor line col := rfl

end BlockLang.Editor
