import BlockLang.Analyser

/-!
# The rules

What each production asks of the tokens, in terms of the productions it is made of. The rules follow
the grammar; beyond it, a statement list may end in a semicolon, identifiers have to be declared
before they are used, and operands have to fit their operators.

## Main definitions

* `Callee`: how the productions are analysed
* `rule call c`: what the production of `c` does, its parts being analysed by `call`
-/

namespace BlockLang

open Analyser

/-- How the productions are analysed. -/
abbrev Callee (σ : Type := Array Event) := (c : Call) → AnalyserTo σ c.Result

/-- What a production does, given how its parts are analysed. -/
def rule {σ : Type} [TraceSink σ] (call : Callee σ) : Callee σ
  | .statementPart => do
    expect .beginKeyword
    call .statementList
    expect .endKeyword
  | .statementList => do
    call .statement
    if ← lookingAt (· == .semicolon) then
      expect .semicolon
      -- A separator may also close the list.
      if ← lookingAt (·.startsStatement) then
        call .statementList
  | .statement => do
    match (← lookahead).type with
    | .identifier => call .assignmentStatement
    | .ifKeyword => call .ifStatement
    | .whileKeyword => call .whileStatement
    | .callKeyword => call .procedureStatement
    | .doKeyword => call .untilStatement
    | .forKeyword => inLoopScope (call .forStatement)
    | _ => reject .invalid
  | .assignmentStatement => do
    let target ← accept .identifier
    expect .colonEqual
    let first ← lookahead
    let type ←
      if first.type.startsOperand then do
        beginChain
        let t ← call (.expression none)
        pure (if first.type = .numberLiteral then .number else t)
      else if first.type = .stringLiteral then do
        expect .stringLiteral
        pure .string
      else reject .invalid
    declare ⟨target.value, type, target.position⟩
  | .ifStatement => do
    expect .ifKeyword
    call .condition
    expect .thenKeyword
    call .statementList
    match (← lookahead).type with
    | .endKeyword =>
      expect .endKeyword
      expect .ifKeyword
    | .elseKeyword =>
      expect .elseKeyword
      call .statementList
      expect .endKeyword
      expect .ifKeyword
    | _ => reject .invalid
  | .whileStatement => do
    expect .whileKeyword
    call .condition
    expect .loopKeyword
    call .statementList
    expect .endKeyword
    expect .loopKeyword
  | .untilStatement => do
    expect .doKeyword
    call .statementList
    expect .untilKeyword
    call .condition
  | .forStatement => do
    expect .forKeyword
    expect .leftParen
    call .assignmentStatement
    expect .semicolon
    call .condition
    expect .semicolon
    call .assignmentStatement
    expect .rightParen
    expect .doKeyword
    call .statementList
    expect .endKeyword
    expect .loopKeyword
  | .procedureStatement => do
    expect .callKeyword
    expect .identifier
    expect .leftParen
    call .argumentList
    expect .rightParen
  | .argumentList => do
    let _ ← requireDeclared
    expect .identifier
    if ← lookingAt (· == .comma) then
      expect .comma
      call .argumentList
  | .condition => do
    let _ ← requireDeclared
    expect .identifier
    call .conditionalOperator
    match (← lookahead).type with
    | .identifier =>
      let _ ← requireDeclared
      expect .identifier
    | .numberLiteral => expect .numberLiteral
    | .stringLiteral => expect .stringLiteral
    | _ => reject .invalid
  | .conditionalOperator => do
    require (·.isRelational) .expectedRelational
    expect (← lookahead).type
  | .expression join => do
    beginTerm
    require (·.startsOperand) .invalid
    let t ← call .term
    recordTerm t
    checkSum join
    if ← lookingAt fun next => next == .plus || next == .minus then
      let operator ← accept (← lookahead).type
      let operand ← lookahead
      let _ ← call (.expression (some ⟨operator.type, operand⟩))
    pure t
  | .term => do
    require (·.startsOperand) .invalid
    let left ← call .factor
    if ← lookingAt fun next => next == .star || next == .slash then
      let operator ← accept (← lookahead).type
      let operand ← lookahead
      checkFactor operator.type left "left" operand
      checkFactor operator.type (← typeOf operand) "right" operand
      let right ← call .term
      checkFactor operator.type right "right" operand
      pure .number
    else
      pure left
  | .factor => do
    match (← lookahead).type with
    | .identifier =>
      let t ← requireDeclared
      expect .identifier
      pure t
    | .numberLiteral =>
      expect .numberLiteral
      pure .number
    | .leftParen =>
      expect .leftParen
      -- A sum in parentheses has terms of its own.
      let t ← inFreshChain (call (.expression none))
      expect .rightParen
      pure t
    | _ => reject .invalid

end BlockLang
