import BlockLang.Scopes
import BlockLang.Token

/-!
# Operand chains

The terms of a sum arrive one at a time, and each has to fit the one before it. A chain keeps the
types of the last two terms and how far the sum has come: the first term fills the left slot, the
second the right slot, and every later one moves the right slot to the left and takes its place.
Addition asks for two terms of one type and subtraction for two that are no strings.
Multiplication and division refuse strings on either side.

## Main definitions

* `ChainDepth`: how many terms of a sum were begun: none, one, two, or more
* `OperandChain`: the depth with the two slots
* `OperandChain.enter`, `OperandChain.record?`: begins a term, takes its type
* `OperandChain.additiveMismatch?`: why the last two terms do not fit their operator
* `multiplicativeMismatch?`: why a factor does not fit its operator
* `operandType scopes token`: the type of the operand that a token stands for

## Main results

* `OperandChain.record?_enter_isSome`: the type of a term that was begun is always taken
-/

namespace BlockLang

/-- How many terms of a sum were begun. -/
inductive ChainDepth
  | none
  | first
  | second
  | nested
  deriving DecidableEq, Repr, Inhabited

namespace ChainDepth

/-- The depth when one more term is begun. -/
def next : ChainDepth → ChainDepth
  | none => first
  | first => second
  | second => nested
  | nested => nested

/-- The name of a depth. -/
def name : ChainDepth → String
  | none => "NONE"
  | first => "FIRST"
  | second => "SECOND"
  | nested => "NESTED"

end ChainDepth

/-- Why operands do not fit their operator. -/
inductive Mismatch
  | stringDifference (operator : TokenType)
  | mixedSum (operator : TokenType) (left right : ValueType)
  | stringFactor (operator : TokenType) (side : String)
  deriving DecidableEq, Repr

namespace Mismatch

/-- The message about a mismatch. -/
def message : Mismatch → String
  | stringDifference op =>
    "type mismatch: '" ++ op.displayName ++ "' is not defined for " ++ ValueType.string.name ++
      " operands"
  | mixedSum op left right =>
    "type mismatch: '" ++ op.displayName ++ "' requires operands of the same type, got " ++
      left.name ++ " and " ++ right.name
  | stringFactor op side =>
    "type mismatch: " ++ side ++ " operand of '" ++ op.displayName ++ "' is " ++
      ValueType.string.name

end Mismatch

/-- How far a sum has come, and the types of its last two terms. -/
structure OperandChain where
  depth : ChainDepth
  left : ValueType
  right : ValueType
  deriving DecidableEq, Repr, Inhabited

namespace OperandChain

/-- The chain of a sum that has not begun. -/
def fresh : OperandChain := ⟨.none, .unknown, .unknown⟩

/-- Begins one more term. -/
def enter (chain : OperandChain) : OperandChain := { chain with depth := chain.depth.next }

/-- Takes the type of the term that was begun last, if one was. -/
def record? (chain : OperandChain) (t : ValueType) : Option OperandChain :=
  match chain.depth with
  | .none => none
  | .first => some { chain with left := t }
  | .second => some { chain with right := t }
  | .nested => some { chain with left := chain.right, right := t }

/-- Takes the type of the term that was begun last. -/
def record (chain : OperandChain) (t : ValueType) : OperandChain := (chain.record? t).getD chain

/-- Why the last two terms do not fit the operator between them. -/
def additiveMismatch? (chain : OperandChain) (operator : TokenType) : Option Mismatch :=
  match chain.depth with
  | .none | .first => none
  | .second | .nested =>
    if operator = .minus ∧ (chain.left = .string ∨ chain.right = .string) then
      some (.stringDifference operator)
    else if chain.left ≠ chain.right then some (.mixedSum operator chain.left chain.right)
    else none

/-- The message about taking a type before a term was begun. -/
def noTermMessage : String := "operand() called before enter_expression()"

/-- The type of a term that was begun is always taken. -/
theorem record?_enter_isSome (chain : OperandChain) (t : ValueType) :
    (chain.enter.record? t).isSome := by
  obtain ⟨depth, left, right⟩ := chain
  cases depth <;> rfl

end OperandChain

/-- Why a factor on one side of `*` or `/` does not fit. -/
def multiplicativeMismatch? (operator : TokenType) (t : ValueType) (side : String) :
    Option Mismatch :=
  if t = .string then some (.stringFactor operator side) else none

/-- The type of the operand that a token stands for, as far as the token tells. -/
def operandType (scopes : Scopes) (token : Token) : ValueType :=
  match token.type with
  | .identifier => ((scopes.lookup token.value).map Variable.type).getD .unknown
  | .numberLiteral => .number
  | .stringLiteral => .string
  | _ => .unknown

end BlockLang
