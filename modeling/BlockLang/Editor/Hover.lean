import BlockLang.Editor.Diagnostic

/-!
# Hovering

Where the pointer rests on a keyword an editor shows what the keyword is for, and on an identifier
the type that the latest declaration before it gave it.

## Main definitions

* `tokenAt? tokens position`: the token that covers a place
* `latestDeclaration? events name position`: the last declaration of a name up to a position
* `keywordHelp? word`: what a keyword is for
* `hover? document position`: what is shown at a place

## Main results

* `tokenAt?_type_ne`: the end of the file is never found at a place
-/

namespace BlockLang.Editor

/-- The token covers a place: its text stands on the line and reaches over the character. -/
def covers (position : EditorPosition) (token : Token) : Bool :=
  let line := position.line + 1
  let col := position.character + 1
  token.type ≠ .endOfFile && token.position.line = line && token.position.col ≤ col &&
    col < token.position.col + token.value.length

/-- The token that covers a place. -/
def tokenAt? (tokens : List Token) (position : EditorPosition) : Option Token :=
  tokens.find? (covers position)

/-- The end of the file is never found at a place. -/
theorem tokenAt?_type_ne {tokens : List Token} {position : EditorPosition} {token : Token}
    (h : tokenAt? tokens position = some token) : token.type ≠ .endOfFile := by
  have := List.find?_some h
  simp only [covers, Bool.and_eq_true, decide_eq_true_eq] at this
  exact this.1.1.1

/-- The last declaration of a name in a trace that stands at a position or before it. -/
def latestDeclaration? (events : List Event) (name : String) (position : Position) :
    Option Variable :=
  ((declared events).filter fun v => v.identifier = name ∧ v.position ≤ position).getLast?

/-- What a keyword is for. -/
def keywordHelp? : String → Option String
  | "begin" => "Opens the program body: \x60begin <statements> end\x60."
  | "if" => "Conditional: \x60if <condition> then ... [else ...] end if\x60."
  | "while" => "Pre-tested loop: \x60while <condition> loop ... end loop\x60."
  | "do" =>
    "Post-tested loop: \x60do ... until <condition>\x60; also opens a \x60for\x60 body."
  | "for" =>
    "Counted loop: \x60for (<assign>; <condition>; <assign>) do ... end loop\x60. " ++
      "Variables assigned in the header or body are local to the loop."
  | "call" => "Procedure call: \x60call name(arg, ...)\x60; arguments must be declared."
  | _ => none

/-- What is shown for a token: its help if its text is that of a keyword and no identifier, the type
of the name if it is an identifier. -/
def hoverText? (events : List Event) (token : Token) : Option String :=
  if token.type = .identifier then
    (latestDeclaration? events token.value token.position).map fun v =>
      "\x60\x60\x60rgg\n" ++ v.identifier ++ ": " ++ v.type.name ++ "\n\x60\x60\x60"
  else
    (keywordHelp? token.value).map fun help => "**\x60" ++ token.value ++ "\x60**: " ++ help

/-- What is shown at a place of a document. -/
def hover? (document : DocumentAnalysis) (position : EditorPosition) : Option String := do
  let tokens ← document.tokens
  let token ← tokenAt? tokens position
  hoverText? document.events token

end BlockLang.Editor
