import BlockLang.Position
import BlockLang.TokenType
import BlockLang.Text.Quoted

/-!
# Tokens

A token is a terminal symbol with its text and the position of its first character. The text of a
string constant stands without its quotes.

## Main definitions

* `Token`: a terminal symbol, its text and its position
* `Token.describe`: how a message mentions a token
* `Token.listing`: the line of a token in a token listing
-/

namespace BlockLang

/-- A terminal symbol with its text and position. -/
structure Token where
  type : TokenType
  value : String
  position : Position
  deriving DecidableEq, Repr, Inhabited

namespace Token

/-- How a message mentions the kind of a token. -/
def kindName (t : Token) : String := t.type.displayName

/-- How a message mentions a token: literals show their text. -/
def describe (t : Token) : String :=
  if t.type.isLiteral then t.kindName ++ " '" ++ t.value ++ "'" else t.kindName

/-- The line of a token in a token listing. -/
def listing (t : Token) : String :=
  "Token(" ++ t.type.name ++ ", " ++ Text.quoted t.value ++ ", " ++ t.position.text ++ ")"

end Token

end BlockLang
