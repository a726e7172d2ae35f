import BlockLang.Analysis
import BlockLang.Editor.Range
import BlockLang.Editor.Uri

/-!
# Diagnostics

An editor shows at most one diagnostic for a document: its first lexical error, or the first cause
of the fault that its analysis ends with.

## Main definitions

* `Diagnostic`: a message about a stretch of a document
* `DocumentAnalysis`: what is known about a document
* `analyseDocument limit uri source`: analyses a document

## Main results

* `makeDiagnostic_start`: a diagnostic begins at the place it is about
-/

namespace BlockLang.Editor

/-- A message about a stretch of a document, with the class of the error. -/
structure Diagnostic where
  range : EditorRange
  message : String
  code : Option String
  deriving DecidableEq, Repr

namespace Diagnostic

/-- How grave a diagnostic is: all are errors. -/
def severity : String := "Error"

/-- The tool that diagnostics come from. -/
def source : String := "rggc"

end Diagnostic

/-- The diagnostic about `length` characters at a line and column, but about one at least. -/
def makeDiagnostic (line col : Int) (message : String) (length : Int) (code : Option String) :
    Diagnostic :=
  ⟨stretch (toEditor line col) (max length 1), message, code⟩

/-- A diagnostic begins at the place it is about. -/
theorem makeDiagnostic_start (line col : Int) (message : String) (length : Int)
    (code : Option String) :
    (makeDiagnostic line col message length code).range.start = toEditor line col := rfl

/-- What is known about a document: its diagnostics, its tokens if it has no lexical error, and the
trace and fault of its analysis. -/
structure DocumentAnalysis where
  uri : String
  source : String
  diagnostics : List Diagnostic
  tokens : Option (List Token)
  events : List Event
  fault : Option Fault
  deriving DecidableEq, Repr

/-- The token that a fault without a cause was reported at. -/
def tokenOfRoot? (events : List Event) (root : FaultLink) : Option Token :=
  events.findSome? fun
    | .error token fault => if fault = .ofLink root then some token else none
    | _ => none

/-- The message of a fault in an editor: its first cause, and the productions around it. -/
def faultMessage (fault : Fault) : String :=
  fault.root.message ++
    if fault.productions.isEmpty then ""
    else " (in " ++ String.intercalate " > " fault.productions ++ ")"

/-- The diagnostic about a lexical error. -/
def lexicalDiagnostic (e : LexicalError) : Diagnostic :=
  makeDiagnostic e.position.line e.position.col e.message 1 (some "LexerError")

/-- The diagnostic about a fault: it covers the token of the first cause. -/
def faultDiagnostic (events : List Event) (fault : Fault) : Diagnostic :=
  let root := fault.root
  let length := ((tokenOfRoot? events root).map fun token => token.value.length).getD 1
  makeDiagnostic root.position.line root.position.col (faultMessage fault) length
    (some root.kind.name)

/-- The diagnostic about a program that nests too deeply. -/
def tooDeepDiagnostic : Diagnostic :=
  makeDiagnostic 1 1 "program nests too deeply to analyse" 1 (some "RecursionError")

/-- The diagnostic about the end of a run, if it was a bad one. -/
def stopDiagnostics (events : List Event) : Except Stop Unit → List Diagnostic
  | .ok _ => []
  | .error (.fault fault) => [faultDiagnostic events fault]
  | .error (.lexical e) => [lexicalDiagnostic e]
  | .error .tooDeep => [tooDeepDiagnostic]

/-- The fault that a run ended with. -/
def faultOf? : Except Stop Unit → Option Fault
  | .error (.fault fault) => some fault
  | _ => none

/-- Analyses the text of a document. -/
def analyseText (limit : Nat) (uri source : String) : DocumentAnalysis :=
  match tokenize source with
  | .error e => ⟨uri, source, [lexicalDiagnostic e], none, [], none⟩
  | .ok tokens =>
    let analysis := analyseWithin limit (.ofSource source)
    let events := analysis.events.toList
    ⟨uri, source, stopDiagnostics events analysis.outcome, some tokens, events,
      faultOf? analysis.outcome⟩

/-- Analyses a document; its URI has to be one. -/
def analyseDocument (limit : Nat) (uri source : String) : Except UriError DocumentAnalysis := do
  let _ ← uriPath uri
  pure (analyseText limit uri source)

end BlockLang.Editor
