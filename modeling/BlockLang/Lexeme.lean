import BlockLang.OperatorTrie
import BlockLang.Text.Word

/-!
# Lexemes

A lexeme is the run of characters of one token. The first character settles its class, and it is as
long as its class allows:

* a quote opens a string constant, which ends at the next quote on the same line that no backslash
  escapes;
* a digit begins a number constant: a run of digits, and a point with a second run if a digit
  follows the point;
* a letter or a low line begins a word, which is a keyword or an identifier;
* all else has to begin with an operator.

## Main definitions

* `isGap c`: the character only separates lexemes
* `Lexeme`: the type and text of a token, with the characters it is written in
* `Obstacle`: why no lexeme begins at a character
* `stringBody cs`, `numberText cs`: the characters of a string or number constant
* `scan operators c cs`: the lexeme that the text `c :: cs` begins with

## Main results

* `stringBody_isPrefix`, `numberText_isPrefix`: constants are read from the front of the text
-/

namespace BlockLang

/-- The character only separates lexemes. -/
def isGap (c : Char) : Bool := c == ' ' || c == '\t' || c == '\n' || c == '\r'

/-- The type and text of a token, with the characters it is written in. -/
structure Lexeme where
  type : TokenType
  value : List Char
  written : List Char
  deriving DecidableEq, Repr

/-- Why no lexeme begins at a character. -/
inductive Obstacle
  | unterminatedString
  | unexpected (c : Char)
  deriving DecidableEq, Repr

namespace Obstacle

/-- The message about an obstacle. -/
def message : Obstacle → String
  | unterminatedString => "Unterminated string literal"
  | unexpected c => "Unexpected character '" ++ c.toString ++ "'"

end Obstacle

/-- What a text begins with: a lexeme, or an obstacle with the characters passed before it shows. -/
inductive Scan
  | found (lexeme : Lexeme)
  | stuck (obstacle : Obstacle) (passed : List Char)
  deriving DecidableEq, Repr

/-- The characters after an opening quote, up to the closing quote, the end of the line or the end
of the text. A backslash takes the next character with it, unless that ends the line. -/
def stringBody : List Char → List Char
  | [] => []
  | '\\' :: c :: cs => if c = '\n' then ['\\'] else '\\' :: c :: stringBody cs
  | c :: cs => if c = '"' ∨ c = '\n' then [] else c :: stringBody cs

/-- The string constant whose opening quote stands before `cs`. -/
def scanString (cs : List Char) : Scan :=
  let body := stringBody cs
  match cs.drop body.length with
  | '"' :: _ => .found ⟨.stringLiteral, body, '"' :: body ++ ['"']⟩
  | _ => .stuck .unterminatedString ('"' :: body)

/-- The number constant at the front of a text: a point belongs to it only if a digit follows. -/
def numberText (cs : List Char) : List Char :=
  let whole := cs.takeWhile Text.isDigit
  match cs.drop whole.length with
  | '.' :: d :: rest =>
    if Text.isDigit d then whole ++ '.' :: (d :: rest).takeWhile Text.isDigit else whole
  | _ => whole

/-- The terminal symbol of a word: its own if it is a keyword. -/
def wordType (word : List Char) : TokenType :=
  (keywords.find? (String.ofList word)).getD .identifier

/-- The lexeme that the text `c :: cs` begins with, `c` being no gap. -/
def scan (operators : OperatorTrie) (c : Char) (cs : List Char) : Scan :=
  if c = '"' then scanString cs
  else if Text.isDigit c then
    let number := numberText (c :: cs)
    .found ⟨.numberLiteral, number, number⟩
  else if Text.isWordStart c then
    let word := (c :: cs).takeWhile Text.isWordChar
    .found ⟨wordType word, word, word⟩
  else
    match operators.longest? (c :: cs) with
    | some (t, n) => .found ⟨t, (c :: cs).take n, (c :: cs).take n⟩
    | none => .stuck (.unexpected c) []

theorem stringBody_isPrefix (cs : List Char) : stringBody cs <+: cs := by
  fun_induction stringBody cs <;> simp_all

theorem numberText_isPrefix (cs : List Char) : numberText cs <+: cs := by
  have hp := List.takeWhile_prefix Text.isDigit (l := cs)
  have hw : cs.takeWhile Text.isDigit ++ cs.drop (cs.takeWhile Text.isDigit).length = cs :=
    List.prefix_iff_eq_append.mp hp
  unfold numberText
  dsimp only
  split
  · next d rest heq =>
    split
    · conv => rhs; rw [← hw, heq]
      rw [List.prefix_append_right_inj, List.prefix_cons_inj]
      exact List.takeWhile_prefix _
    · exact hp
  · exact hp

end BlockLang
