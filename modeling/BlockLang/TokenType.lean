import BlockLang.Dictionary

/-!
# Token types

The terminal symbols of the language: three literal classes, eleven keywords, fifteen operators and
the end of the file. Keywords and operators have one spelling each, and the name of an operator
spells out its characters.

## Main definitions

* `TokenType`: the terminal symbols
* `TokenType.all`: all of them, in their order
* `TokenType.name`, `TokenType.ofName?`: the names that a grammar file gives them
* `TokenType.spelling?`: the text of a keyword or an operator
* `TokenType.className?`: the name of a class of tokens
* `TokenType.displayName`: how a message mentions a terminal symbol
* `keywords`, `operators`: the spellings of the language

## Main results

* `TokenType.mem_all`: no terminal symbol is missing
* `TokenType.ofName?_eq_some_iff`: names identify terminal symbols
-/

namespace BlockLang

/-- A terminal symbol. -/
inductive TokenType
  | identifier
  | numberLiteral
  | stringLiteral
  | beginKeyword
  | endKeyword
  | ifKeyword
  | thenKeyword
  | elseKeyword
  | whileKeyword
  | loopKeyword
  | doKeyword
  | untilKeyword
  | forKeyword
  | callKeyword
  | less
  | lessEqual
  | equal
  | slashEqual
  | greater
  | greaterEqual
  | plus
  | minus
  | star
  | slash
  | colonEqual
  | semicolon
  | comma
  | leftParen
  | rightParen
  | endOfFile
  deriving DecidableEq, Repr, Inhabited

namespace TokenType

/-- The terminal symbols in their order: literal classes, keywords, operators, end of file. -/
def all : List TokenType :=
  [identifier, numberLiteral, stringLiteral, beginKeyword, endKeyword, ifKeyword, thenKeyword,
   elseKeyword, whileKeyword, loopKeyword, doKeyword, untilKeyword, forKeyword, callKeyword, less,
   lessEqual, equal, slashEqual, greater, greaterEqual, plus, minus, star, slash, colonEqual,
   semicolon, comma, leftParen, rightParen, endOfFile]

theorem mem_all (t : TokenType) : t ∈ all := by cases t <;> decide

/-- The name of a terminal symbol. -/
def name : TokenType → String
  | identifier => "IDENT"
  | numberLiteral => "NUMBER_LIT"
  | stringLiteral => "STRING_LIT"
  | beginKeyword => "BEGIN"
  | endKeyword => "END"
  | ifKeyword => "IF"
  | thenKeyword => "THEN"
  | elseKeyword => "ELSE"
  | whileKeyword => "WHILE"
  | loopKeyword => "LOOP"
  | doKeyword => "DO"
  | untilKeyword => "UNTIL"
  | forKeyword => "FOR"
  | callKeyword => "CALL"
  | less => "LT"
  | lessEqual => "LT_EQ"
  | equal => "EQ"
  | slashEqual => "SLASH_EQ"
  | greater => "GT"
  | greaterEqual => "GT_EQ"
  | plus => "PLUS"
  | minus => "MINUS"
  | star => "STAR"
  | slash => "SLASH"
  | colonEqual => "COLON_EQ"
  | semicolon => "SEMICOLON"
  | comma => "COMMA"
  | leftParen => "LPAREN"
  | rightParen => "RPAREN"
  | endOfFile => "EOF"

/-- The terminal symbol of a name. -/
def ofName? (s : String) : Option TokenType := all.find? fun t => t.name == s

/-- The text of a keyword or an operator. -/
def spelling? : TokenType → Option String
  | beginKeyword => "begin"
  | endKeyword => "end"
  | ifKeyword => "if"
  | thenKeyword => "then"
  | elseKeyword => "else"
  | whileKeyword => "while"
  | loopKeyword => "loop"
  | doKeyword => "do"
  | untilKeyword => "until"
  | forKeyword => "for"
  | callKeyword => "call"
  | less => "<"
  | lessEqual => "<="
  | equal => "="
  | slashEqual => "/="
  | greater => ">"
  | greaterEqual => ">="
  | plus => "+"
  | minus => "-"
  | star => "*"
  | slash => "/"
  | colonEqual => ":="
  | semicolon => ";"
  | comma => ","
  | leftParen => "("
  | rightParen => ")"
  | identifier | numberLiteral | stringLiteral | endOfFile => none

/-- How a terminal symbol without a spelling of its own is called. -/
def className? : TokenType → Option String
  | identifier => "identifier"
  | numberLiteral => "numberConstant"
  | stringLiteral => "stringConstant"
  | endOfFile => "end of file"
  | _ => none

/-- How a message mentions a terminal symbol: by its spelling, or by the name of its class. -/
def displayName (t : TokenType) : String := (t.spelling?.or t.className?).getD t.name

/-- The literal classes: their tokens differ in their text. -/
def isLiteral : TokenType → Bool
  | identifier | numberLiteral | stringLiteral => true
  | _ => false

/-- The terminal symbol compares two values. -/
def isRelational : TokenType → Bool
  | less | lessEqual | equal | slashEqual | greater | greaterEqual => true
  | _ => false

/-- The terminal symbol can begin an expression. -/
def startsOperand : TokenType → Bool
  | identifier | numberLiteral | leftParen => true
  | _ => false

/-- The terminal symbol can begin a statement. -/
def startsStatement : TokenType → Bool
  | identifier | ifKeyword | whileKeyword | callKeyword | doKeyword | forKeyword => true
  | _ => false

theorem name_injective {t u : TokenType} (h : t.name = u.name) : t = u := by
  revert h
  cases t <;> cases u <;> decide

/-- Names identify terminal symbols. -/
theorem ofName?_eq_some_iff {s : String} {t : TokenType} : ofName? s = some t ↔ t.name = s := by
  constructor
  · intro h
    have := List.find?_some h
    simpa using this
  · rintro rfl
    cases t <;> rfl

end TokenType

/-- The keywords of the language and their terminal symbols. -/
def keywords : Dictionary String TokenType :=
  ⟨[("begin", .beginKeyword), ("end", .endKeyword), ("if", .ifKeyword), ("then", .thenKeyword),
    ("else", .elseKeyword), ("while", .whileKeyword), ("loop", .loopKeyword), ("do", .doKeyword),
    ("until", .untilKeyword), ("for", .forKeyword), ("call", .callKeyword)]⟩

/-- The operators of the language and their terminal symbols: longer ones first, those of one length
in the order of their characters. -/
def operators : Dictionary String TokenType :=
  ⟨[("/=", .slashEqual), (":=", .colonEqual), ("<=", .lessEqual), (">=", .greaterEqual),
    ("(", .leftParen), (")", .rightParen), ("*", .star), ("+", .plus), (",", .comma),
    ("-", .minus), ("/", .slash), (";", .semicolon), ("<", .less), ("=", .equal),
    (">", .greater)]⟩

end BlockLang
