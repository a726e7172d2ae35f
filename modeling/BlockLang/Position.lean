/-!
# Positions

A position is a line and a column, both counted from one in a source. Positions that are given from
outside may be anything, so they are integers. Positions are ordered by line, then column.

## Main definitions

* `Position.start`: the first position of a source
* `Position.advance p c`: the position after a character at `p`
* `Position.after p cs`: the position after several characters
* `Position.text p`: the form `line:column`

## Main results

* `Position.after_append`: moving on over two texts in turn
-/

namespace BlockLang

/-- A line and a column. -/
structure Position where
  line : Int
  col : Int
  deriving DecidableEq, Repr, Inhabited

namespace Position

/-- The first position of a source. -/
def start : Position := ⟨1, 1⟩

/-- The position after the character `c` at `p`: a line feed begins the next line. -/
def advance (p : Position) (c : Char) : Position :=
  if c = '\n' then ⟨p.line + 1, 1⟩ else ⟨p.line, p.col + 1⟩

/-- The position after the characters `cs`, of which the first stands at `p`. -/
def after (p : Position) (cs : List Char) : Position := cs.foldl advance p

@[simp] theorem after_nil (p : Position) : p.after [] = p := rfl

@[simp] theorem after_cons (p : Position) (c : Char) (cs : List Char) :
    p.after (c :: cs) = (p.advance c).after cs := rfl

theorem after_append (p : Position) (cs ds : List Char) :
    p.after (cs ++ ds) = (p.after cs).after ds := by
  simp [after]

/-- `p` stands at or before `q`. -/
protected def le (p q : Position) : Prop := p.line < q.line ∨ (p.line = q.line ∧ p.col ≤ q.col)

instance : LE Position := ⟨Position.le⟩

instance (p q : Position) : Decidable (p ≤ q) :=
  inferInstanceAs (Decidable (p.line < q.line ∨ (p.line = q.line ∧ p.col ≤ q.col)))

/-- `p` stands before `q`. -/
protected def lt (p q : Position) : Prop := p.line < q.line ∨ (p.line = q.line ∧ p.col < q.col)

instance : LT Position := ⟨Position.lt⟩

instance (p q : Position) : Decidable (p < q) :=
  inferInstanceAs (Decidable (p.line < q.line ∨ (p.line = q.line ∧ p.col < q.col)))

/-- The form `line:column`. -/
def text (p : Position) : String := toString p.line ++ ":" ++ toString p.col

end Position

end BlockLang
