import BlockLang.Dictionary
import BlockLang.Variable

/-!
# Scopes

There is one global scope and one scope for each open loop. A declaration goes into the innermost
open scope. A name is looked up from the outermost loop inward and in the global scope last, so a
name of an outer loop hides the same name of an inner one.

## Main definitions

* `Scopes`: the global scope and the scopes of the open loops
* `Scopes.declare`, `Scopes.lookup`: declares a variable, finds the variable of a name
* `Scopes.enter`, `Scopes.leave?`: opens a loop scope, closes the innermost one
* `Scopes.restore n`: drops loop scopes until `n` are open

## Main results

* `Scopes.leave?_enter`: a loop scope that declared nothing leaves nothing behind
* `Scopes.restore_enter`: dropping a scope that was just opened gives back the scopes before
* `Scopes.leave?_eq_none_iff`: a loop scope can be closed as long as one is open
-/

namespace BlockLang

/-- The variables of one scope under their names. -/
abbrev Table := Dictionary String Variable

/-- The global scope and the scopes of the open loops, the innermost loop first. -/
structure Scopes where
  globals : Table
  loops : List Table
  deriving DecidableEq, Repr, Inhabited

namespace Scopes

/-- The scopes at the start of a program: nothing is declared and no loop is open. -/
def empty : Scopes := ⟨.empty, []⟩

/-- The number of open loops. -/
def depth (s : Scopes) : Nat := s.loops.length

/-- Declares a variable under a name in the innermost open scope. -/
def declare (s : Scopes) (name : String) (v : Variable) : Scopes :=
  match s.loops with
  | [] => { s with globals := s.globals.insert name v }
  | table :: outer => { s with loops := table.insert name v :: outer }

/-- The variable of a name in a list of loop scopes, the innermost first: the outermost loop that
knows the name decides. -/
def lookupLoops (name : String) : List Table → Option Variable
  | [] => none
  | table :: outer => (lookupLoops name outer).or (table.find? name)

/-- The variable that a name stands for. -/
def lookup (s : Scopes) (name : String) : Option Variable :=
  (lookupLoops name s.loops).or (s.globals.find? name)

/-- Opens a loop scope inside the others. -/
def enter (s : Scopes) : Scopes := { s with loops := .empty :: s.loops }

/-- Closes the innermost loop scope, if one is open, and gives its variables. -/
def leave? (s : Scopes) : Option (List Variable × Scopes) :=
  match s.loops with
  | [] => none
  | table :: outer => some (table.values, { s with loops := outer })

/-- Drops loop scopes from the inside until no more than `n` are open. -/
def restore (n : Nat) (s : Scopes) : Scopes := { s with loops := s.loops.drop (s.depth - n) }

/-- The message about closing a loop scope when none is open. -/
def noOpenLoopMessage : String := "exit_loop_scope() called with no open loop scope"

@[simp] theorem depth_enter (s : Scopes) : s.enter.depth = s.depth + 1 := rfl

@[simp] theorem depth_declare (s : Scopes) (name : String) (v : Variable) :
    (s.declare name v).depth = s.depth := by
  obtain ⟨globals, loops⟩ := s
  cases loops <;> rfl

/-- A loop scope that declared nothing leaves nothing behind. -/
theorem leave?_enter (s : Scopes) : s.enter.leave? = some ([], s) := rfl

/-- Dropping a scope that was just opened gives back the scopes before. -/
theorem restore_enter (s : Scopes) : s.enter.restore s.depth = s := by
  simp [restore, enter, depth]

/-- A loop scope can be closed as long as one is open. -/
theorem leave?_eq_none_iff (s : Scopes) : s.leave? = none ↔ s.depth = 0 := by
  obtain ⟨globals, loops⟩ := s
  cases loops <;> simp [leave?, depth]

end Scopes

end BlockLang
