import BlockLang.Token
import BlockLang.Variable

/-!
# Productions

The rules of the grammar, and what is asked of each when it is used. Expressions, terms and factors
answer with the type of the value that they stand for.

## Main definitions

* `Production`: the rules, with their names
* `Join`: the operator that leads from one term of a sum to the next
* `Call`: a rule with what it is told about its surroundings
* `Call.Result`: what a call answers with

## Main results

* `Production.name_injective`: names identify productions
-/

namespace BlockLang

/-- A rule of the grammar. -/
inductive Production
  | statementPart
  | statementList
  | statement
  | assignmentStatement
  | ifStatement
  | whileStatement
  | untilStatement
  | forStatement
  | procedureStatement
  | argumentList
  | condition
  | conditionalOperator
  | expression
  | term
  | factor
  deriving DecidableEq, Repr

namespace Production

/-- The rules in the order of the grammar. -/
def all : List Production :=
  [statementPart, statementList, statement, assignmentStatement, ifStatement, whileStatement,
   untilStatement, forStatement, procedureStatement, argumentList, condition, conditionalOperator,
   expression, term, factor]

/-- The name of a rule. -/
def name : Production → String
  | statementPart => "StatementPart"
  | statementList => "StatementList"
  | statement => "Statement"
  | assignmentStatement => "AssignmentStatement"
  | ifStatement => "IfStatement"
  | whileStatement => "WhileStatement"
  | untilStatement => "UntilStatement"
  | forStatement => "ForStatement"
  | procedureStatement => "ProcedureStatement"
  | argumentList => "ArgumentList"
  | condition => "Condition"
  | conditionalOperator => "ConditionalOperator"
  | expression => "Expression"
  | term => "Term"
  | factor => "Factor"

theorem mem_all (p : Production) : p ∈ all := by cases p <;> decide

/-- Names identify productions. -/
theorem name_injective {p q : Production} (h : p.name = q.name) : p = q := by
  revert h
  cases p <;> cases q <;> decide

end Production

/-- The operator that leads from one term of a sum to the next, and the token after it. -/
structure Join where
  operator : TokenType
  operand : Token
  deriving DecidableEq, Repr

/-- A rule with what it is told: an expression learns how it continues a sum. -/
inductive Call
  | statementPart
  | statementList
  | statement
  | assignmentStatement
  | ifStatement
  | whileStatement
  | untilStatement
  | forStatement
  | procedureStatement
  | argumentList
  | condition
  | conditionalOperator
  | expression (join : Option Join)
  | term
  | factor
  deriving DecidableEq, Repr

namespace Call

/-- The rule that a call uses. -/
def production : Call → Production
  | statementPart => .statementPart
  | statementList => .statementList
  | statement => .statement
  | assignmentStatement => .assignmentStatement
  | ifStatement => .ifStatement
  | whileStatement => .whileStatement
  | untilStatement => .untilStatement
  | forStatement => .forStatement
  | procedureStatement => .procedureStatement
  | argumentList => .argumentList
  | condition => .condition
  | conditionalOperator => .conditionalOperator
  | expression _ => .expression
  | term => .term
  | factor => .factor

/-- What a call answers with: a type, if it stands for a value. -/
abbrev Result : Call → Type
  | expression _ | term | factor => ValueType
  | _ => Unit

/-- The type that an answer tells, if it tells one. -/
def valueType? : (c : Call) → c.Result → Option ValueType
  | expression _, t => some t
  | term, t => some t
  | factor, t => some t
  | statementPart, _ | statementList, _ | statement, _ | assignmentStatement, _
  | ifStatement, _ | whileStatement, _ | untilStatement, _ | forStatement, _
  | procedureStatement, _ | argumentList, _ | condition, _ | conditionalOperator, _ => none

/-- The call of a rule at the front of a text: an expression begins a sum. -/
def ofProduction : Production → Call
  | .statementPart => statementPart
  | .statementList => statementList
  | .statement => statement
  | .assignmentStatement => assignmentStatement
  | .ifStatement => ifStatement
  | .whileStatement => whileStatement
  | .untilStatement => untilStatement
  | .forStatement => forStatement
  | .procedureStatement => procedureStatement
  | .argumentList => argumentList
  | .condition => condition
  | .conditionalOperator => conditionalOperator
  | .expression => expression none
  | .term => term
  | .factor => factor

theorem production_ofProduction (p : Production) : (ofProduction p).production = p := by
  cases p <;> rfl

end Call

end BlockLang
