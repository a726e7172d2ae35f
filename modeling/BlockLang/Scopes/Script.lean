import BlockLang.Scopes
import BlockLang.Trace.Event

/-!
# Scope scripts

A script is a list of actions on scopes. A block runs its body in a loop scope of its own: at its
end the scope is closed and its variables are reported, but if the body is broken off, the scope and
all that were opened in it are dropped without a report. A body that is broken off breaks off what
is around its block only if the block passes that on.

## Main definitions

* `ScopeAction`: one action of a script
* `ScopeStep`: what an action answered, and the scopes after it
* `ScopeAction.run`, `runScript`: the steps of an action and of a script

## Main results

* `runScript_nil`: an empty script does nothing
-/

namespace BlockLang

/-- One action on scopes. -/
inductive ScopeAction
  | declare (name : String) (v : Variable)
  | lookup (name : String)
  | enter
  | leave
  | breakOff
  | block (body : List ScopeAction) (passesOn : Bool)

/-- What an action was. -/
inductive ScopeMove
  | declare
  | lookup
  | enter
  | leave
  | breakOff
  | blockBegin
  | blockEnd
  deriving DecidableEq, Repr

/-- What an action answers. -/
inductive ScopeAnswer
  | nothing
  | found (v : Option Variable)
  | opened (table : Table)
  | removed (vs : List Variable)
  | noOpenLoop
  | brokenOff
  deriving DecidableEq, Repr

/-- What an action was and answered, the scopes after it, and its entries in the trace. -/
structure ScopeStep where
  move : ScopeMove
  answer : ScopeAnswer
  scopes : Scopes
  events : List Event
  deriving DecidableEq, Repr

/-- The steps of a run, the scopes after it, and whether it was broken off. -/
structure ScopeRun where
  steps : List ScopeStep
  scopes : Scopes
  brokenOff : Bool
  deriving DecidableEq, Repr

/-- The step that closes the innermost loop scope. -/
def closingStep (move : ScopeMove) (answer : List Variable → ScopeAnswer) (s : Scopes) : ScopeStep :=
  match s.leave? with
  | none => ⟨move, .noOpenLoop, s, []⟩
  | some (removed, after) => ⟨move, answer removed, after, removed.map .remove⟩

/-- The step that ends a block whose body ended with `run`; `depth` loop scopes were open before. -/
def blockEndStep (depth : Nat) (run : ScopeRun) : ScopeStep :=
  if run.brokenOff then ⟨.blockEnd, .brokenOff, run.scopes.restore depth, []⟩
  else closingStep .blockEnd (fun _ => .nothing) run.scopes

mutual

/-- The steps of an action. Breaking off gives no step of its own. -/
def ScopeAction.run : ScopeAction → Scopes → ScopeRun
  | .declare name v, s =>
    let after := s.declare name v
    ⟨[⟨.declare, .nothing, after, [.add v]⟩], after, false⟩
  | .lookup name, s => ⟨[⟨.lookup, .found (s.lookup name), s, []⟩], s, false⟩
  | .enter, s => ⟨[⟨.enter, .nothing, s.enter, []⟩], s.enter, false⟩
  | .leave, s =>
    let step := closingStep .leave .removed s
    ⟨[step], step.scopes, false⟩
  | .breakOff, s => ⟨[], s, true⟩
  | .block body passesOn, s =>
    let run := runActions body s.enter
    let last := blockEndStep s.depth run
    ⟨⟨.blockBegin, .opened .empty, s.enter, []⟩ :: run.steps ++ [last], last.scopes,
      run.brokenOff && passesOn⟩

/-- The steps of some actions, as far as they are not broken off. -/
def runActions : List ScopeAction → Scopes → ScopeRun
  | [], s => ⟨[], s, false⟩
  | action :: rest, s =>
    let first := action.run s
    if first.brokenOff then first
    else
      let others := runActions rest first.scopes
      ⟨first.steps ++ others.steps, others.scopes, others.brokenOff⟩

end

/-- The steps of a script on empty scopes; a script that is broken off tells so at its end. -/
def runScript (actions : List ScopeAction) : List ScopeStep :=
  let run := runActions actions .empty
  if run.brokenOff then run.steps ++ [⟨.breakOff, .nothing, run.scopes, []⟩] else run.steps

theorem runScript_nil : runScript [] = [] := by
  simp [runScript, runActions]

end BlockLang
