import BlockLang.Lexeme
import BlockLang.Token

/-!
# The lexer

The lexer walks over a source and gives one token at a time. It passes the gap before a lexeme, then
the lexeme; at the end of the source it gives the end of the file, as often as it is asked. A string
constant without an end is passed as far as its line goes, and a character that begins no lexeme is
not passed at all.

## Main definitions

* `LexicalError`: a message with the position it is about
* `Delivery`: what one call gives, a token or an error
* `Cursor`: how far the lexer has come
* `Cursor.next operators cursor`: the next token and the cursor after it
* `deliveries operators n cursor`: the deliveries up to the end of the file or the first error
* `tokenize source`: the tokens of a source, or its first error

## Main results

* `Cursor.next_endOfFile`: the end of the file is given again and again
-/

namespace BlockLang

/-- A message about the characters at a position. -/
structure LexicalError where
  message : String
  position : Position
  deriving DecidableEq, Repr, Inhabited

namespace LexicalError

/-- The error in one line. -/
def text (e : LexicalError) : String := e.message ++ " at " ++ e.position.text

end LexicalError

/-- What one call of a token source gives. -/
abbrev Delivery := Except LexicalError Token

/-- How far the lexer has come in a source: what is left of it, and where that begins. -/
structure Cursor where
  rest : List Char
  offset : Nat
  position : Position
  deriving DecidableEq, Repr

namespace Cursor

/-- The front of a source. -/
def start (source : String) : Cursor := ⟨source.toList, 0, Position.start⟩

/-- The cursor after the characters `run`, which the rest begins with. -/
def pass (cursor : Cursor) (run : List Char) : Cursor :=
  ⟨cursor.rest.drop run.length, cursor.offset + run.length, cursor.position.after run⟩

/-- The cursor after the gap that the rest begins with. -/
def passGap (cursor : Cursor) : Cursor := cursor.pass (cursor.rest.takeWhile isGap)

/-- What the lexer gives at a cursor that stands at no gap. -/
def deliver (operators : OperatorTrie) (cursor : Cursor) : Delivery × Cursor :=
  match cursor.rest with
  | [] => (.ok ⟨.endOfFile, "", cursor.position⟩, cursor)
  | c :: cs =>
    match scan operators c cs with
    | .found lexeme =>
      (.ok ⟨lexeme.type, String.ofList lexeme.value, cursor.position⟩, cursor.pass lexeme.written)
    | .stuck obstacle passed =>
      (.error ⟨obstacle.message, cursor.position⟩, cursor.pass passed)

/-- The next token of the source, or the error in its place, and the cursor after it. -/
def next (operators : OperatorTrie) (cursor : Cursor) : Delivery × Cursor :=
  cursor.passGap.deliver operators

@[simp] theorem pass_nil (cursor : Cursor) : cursor.pass [] = cursor := by
  simp [pass]

/-- The end of the file is given again and again. -/
theorem next_endOfFile (operators : OperatorTrie) (cursor : Cursor) (h : cursor.rest = []) :
    cursor.next operators = (.ok ⟨.endOfFile, "", cursor.position⟩, cursor) := by
  simp [next, passGap, deliver, h]

end Cursor

/-- The results of the next `n` calls, each with the cursor after it. -/
def pulls (operators : OperatorTrie) : Nat → Cursor → List (Delivery × Cursor)
  | 0, _ => []
  | n + 1, cursor =>
    let result := cursor.next operators
    result :: pulls operators n result.2

/-- The deliveries up to the end of the file or the first error, in at most `n` calls. -/
def deliveries (operators : OperatorTrie) : Nat → Cursor → List Delivery
  | 0, _ => []
  | n + 1, cursor =>
    match cursor.next operators with
    | (.error e, _) => [.error e]
    | (.ok token, after) =>
      if token.type = .endOfFile then [.ok token] else .ok token :: deliveries operators n after

/-- The deliveries of a source: each token takes a character or more, so one call for each of them
and one for the end of the file are enough. -/
def deliveriesOf (source : String) : List Delivery :=
  deliveries .standard (source.length + 1) (.start source)

/-- The tokens of a list of deliveries, or its first error. -/
def collect : List Delivery → Except LexicalError (List Token)
  | [] => .ok []
  | .ok token :: rest => (collect rest).map (token :: ·)
  | .error e :: _ => .error e

/-- The tokens of a source with the end of the file as the last, or its first error. -/
def tokenize (source : String) : Except LexicalError (List Token) := collect (deliveriesOf source)

end BlockLang
