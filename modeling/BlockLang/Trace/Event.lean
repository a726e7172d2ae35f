import BlockLang.Fault
import BlockLang.Token
import BlockLang.Variable

/-!
# Trace events

A run of the analyser leaves a trace: which productions were begun and ended, which tokens were
accepted, which variables were declared and dropped, and the faults.

## Main definitions

* `Event`: one entry of a trace
* `EventKind`: the kinds of entries
* `declared events`: the variables that a trace declares, in order
* `FaultReport`: a fault that a production is about to report
-/

namespace BlockLang

/-- The kinds of entries of a trace. -/
inductive EventKind
  | begin
  | finish
  | terminal
  | add
  | remove
  | error
  deriving DecidableEq, Repr

namespace EventKind

/-- The name of a kind. -/
def name : EventKind → String
  | begin => "begin"
  | finish => "end"
  | terminal => "terminal"
  | add => "add"
  | remove => "remove"
  | error => "error"

end EventKind

/-- One entry of a trace. -/
inductive Event
  | begin (production : String)
  | finish (production : String)
  | terminal (token : Token)
  | add (v : Variable)
  | remove (v : Variable)
  | error (token : Token) (fault : Fault)
  deriving DecidableEq, Repr

namespace Event

/-- The kind of an entry. -/
def kind : Event → EventKind
  | begin _ => .begin
  | finish _ => .finish
  | terminal _ => .terminal
  | add _ => .add
  | remove _ => .remove
  | error _ _ => .error

/-- The variable that an entry declares. -/
def declared? : Event → Option Variable
  | add v => some v
  | _ => none

end Event

/-- The variables that a trace declares, in order. -/
def declared (events : List Event) : List Variable := events.filterMap Event.declared?

/-- A fault to be reported at a token: its message, the class it asks for, and the fault behind it
if there is one. -/
structure FaultReport where
  token : Token
  message : String
  kind : Option FaultKind
  cause : Option Fault
  deriving Repr

namespace FaultReport

/-- The class of the reported fault. Unless the report asks for one, a fault with a cause is a
passage without a production, and one without a cause is a parse error. -/
def linkKind (r : FaultReport) : FaultKind :=
  r.kind.getD (if r.cause.isSome then .passage "" else .parse)

/-- The reported fault: it stands at its token, in front of its cause. -/
def fault (r : FaultReport) : Fault :=
  let link : FaultLink := ⟨r.linkKind, r.message, r.token.position⟩
  match r.cause with
  | none => .ofLink link
  | some cause => cause.within link

/-- The entry of the report in a trace. -/
def event (r : FaultReport) : Event := .error r.token r.fault

end FaultReport

end BlockLang
