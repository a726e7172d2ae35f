import BlockLang.Fault
import BlockLang.OperandChain

/-!
# Causes

What can be wrong with a program: a token that does not fit the grammar, a variable that was not
declared, operands that do not fit their operator.

## Main definitions

* `Cause`: what is wrong
* `Cause.kind`, `Cause.message`: the class of a cause, and what is said about it
-/

namespace BlockLang

/-- What is wrong with a program. -/
inductive Cause
  | expected (wanted : TokenType) (got : Token)
  | expectedRelational (got : Token)
  | invalid (got : Token)
  | trailing (got : Token)
  | undeclared (name : String)
  | mismatch (mismatch : Mismatch)
  deriving DecidableEq, Repr

namespace Cause

/-- The class of a cause. -/
def kind : Cause → FaultKind
  | expected _ _ | expectedRelational _ | invalid _ | trailing _ => .parse
  | undeclared _ => .undeclared
  | mismatch _ => .mismatch

/-- What is said about a cause. -/
def message : Cause → String
  | expected wanted got => "expected '" ++ wanted.displayName ++ "', got " ++ got.describe
  | expectedRelational got =>
    "expected one of '<', '<=', '=', '/=', '>', '>=', got " ++ got.describe
  | invalid got => "invalid token: " ++ got.describe
  | trailing got => "unexpected " ++ got.describe ++ " after end of program"
  | undeclared name => "undeclared variable '" ++ name ++ "'"
  | mismatch m => m.message

end Cause

end BlockLang
