import BlockLang.Position

/-!
# Faults

A fault is a chain of links: the last is what went wrong first, and every production that the fault
passed through on its way out put a link before it.

## Main definitions

* `FaultKind`: the class of a link
* `FaultLink`: a message with its class and position
* `Fault`: a chain of links, the outermost first
* `Fault.within link fault`: the fault with one more link around it
* `Fault.root`, `Fault.productions`: the first cause, and the productions it passed through
* `Fault.rendered indent fault`: the chain in lines, each cause further to the right

## Main results

* `Fault.root_within`: a further link does not change the first cause
* `Fault.productions_within`: a production puts its name in front
-/

namespace BlockLang

/-- The class of a link: no class in particular, the three causes, or a production on the way. -/
inductive FaultKind
  | analysis
  | parse
  | undeclared
  | mismatch
  | passage (production : String)
  deriving DecidableEq, Repr, Inhabited

namespace FaultKind

/-- The name of a class. -/
def name : FaultKind → String
  | analysis => "AnalysisError"
  | parse => "ParseError"
  | undeclared => "UndeclaredVariableError"
  | mismatch => "TypeMismatchError"
  | passage _ => "TraceError"

/-- The production of a link that names one. -/
def production? : FaultKind → Option String
  | passage p => some p
  | _ => none

end FaultKind

/-- A message with its class and position. -/
structure FaultLink where
  kind : FaultKind
  message : String
  position : Position
  deriving DecidableEq, Repr, Inhabited

namespace FaultLink

/-- The link in one line. -/
def text (link : FaultLink) : String := link.message ++ " at " ++ link.position.text

end FaultLink

/-- A chain of links: the outermost, and the causes behind it. -/
structure Fault where
  head : FaultLink
  causes : List FaultLink
  deriving DecidableEq, Repr, Inhabited

namespace Fault

/-- A fault without a cause behind it. -/
def ofLink (link : FaultLink) : Fault := ⟨link, []⟩

/-- The links, the outermost first. -/
def links (f : Fault) : List FaultLink := f.head :: f.causes

/-- The fault with one more link around it. -/
def within (link : FaultLink) (f : Fault) : Fault := ⟨link, f.links⟩

/-- The first cause. -/
def root (f : Fault) : FaultLink := f.causes.getLastD f.head

/-- The productions that the fault passed through, the outermost first. -/
def productions (f : Fault) : List String := f.links.filterMap (·.kind.production?)

/-- The outermost link in one line. -/
def text (f : Fault) : String := f.head.text

/-- The lines of some causes, each further to the right by `indent` than the one before. -/
def causeLines (indent : String) : Nat → List FaultLink → List String
  | _, [] => []
  | depth, link :: rest =>
    (String.join (List.replicate depth indent) ++ "caused by: " ++ link.text) ::
      causeLines indent (depth + 1) rest

/-- The chain in lines, the first cause last. -/
def rendered (indent : String) (f : Fault) : String :=
  String.intercalate "\n" (f.head.text :: causeLines indent 1 f.causes)

@[simp] theorem links_within (link : FaultLink) (f : Fault) :
    (f.within link).links = link :: f.links := rfl

/-- A further link does not change the first cause. -/
@[simp] theorem root_within (link : FaultLink) (f : Fault) : (f.within link).root = f.root :=
  List.getLastD_cons

/-- A production puts its name in front. -/
theorem productions_within (p : String) (message : String) (position : Position) (f : Fault) :
    (f.within ⟨.passage p, message, position⟩).productions = p :: f.productions := by
  simp [productions, FaultKind.production?]

end Fault

end BlockLang
