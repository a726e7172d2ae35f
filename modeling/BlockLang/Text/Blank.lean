import BlockLang.Text.CodeRange

/-!
# Blanks

The characters that count as white space in a grammar file: those whose bidirectional class is
`WS`, `B` or `S`, or whose general category is `Zs`, as of Unicode 14.

## Main definitions

* `isBlank c`: the character is white space

## Main results

* `isBlank_of_isWhitespace`: the ASCII white space of `Char.isWhitespace` is blank
-/

namespace BlockLang.Text

/-- The code points of white space, in increasing order. -/
def blankRanges : List (Nat × Nat) :=
  [(9, 13), (28, 32), (133, 133), (160, 160), (5760, 5760), (8192, 8202), (8232, 8233), (8239,
   8239), (8287, 8287), (12288, 12288)]

/-- The character is white space. -/
def isBlank (c : Char) : Bool := inRanges blankRanges c.toNat

theorem isBlank_of_isWhitespace {c : Char} (h : c.isWhitespace = true) : isBlank c = true := by
  simp only [Char.isWhitespace, Bool.or_eq_true, decide_eq_true_eq] at h
  rcases h with (((rfl | rfl) | rfl) | rfl) <;> decide +kernel

example : isBlank '\u3000' && isBlank '\x0b' && !isBlank '\u200b' := by decide +kernel

end BlockLang.Text
