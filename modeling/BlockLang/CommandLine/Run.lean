import BlockLang.Analysis
import BlockLang.CommandLine.Options
import BlockLang.File.Source
import BlockLang.Report
import BlockLang.Trace.Indented

/-!
# Running the program

The program reads its input and lists its tokens or analyses it. An analysis writes its trace while
it goes on, unless it is asked to be quiet, and says at the end that there were no errors or reports
the error it stopped at.

## Main definitions

* `Output`: the exit code of a run and what it wrote
* `listTokens`, `reportAnalysis`: what is written about a source
* `run args read`: a run of the program

## Main results

* `run_help`: help writes nothing to the error stream
-/

namespace BlockLang.CommandLine

open File

/-- The exit code of a run, and what it wrote to its two streams. -/
structure Output where
  exit : Nat
  stdout : String
  stderr : String
  deriving DecidableEq, Repr

/-- The report of a lexical error. -/
def lexicalReport (source file : String) (e : LexicalError) : String :=
  annotate source file e.message e.position.line e.position.col ++ "\n"

/-- The report of a fault: its chain, and its first cause in the source. -/
def faultReport (source file : String) (fault : Fault) : String :=
  let root := fault.root
  fault.rendered "  " ++ "\n" ++
    annotate source file root.message root.position.line root.position.col ++ "\n"

/-- Lists the tokens of a source. -/
def listTokens (source file : String) : Output :=
  match tokenize source with
  | .error e => ⟨1, "", lexicalReport source file e⟩
  | .ok tokens => ⟨0, String.join (tokens.map fun token => token.listing ++ "\n"), ""⟩

/-- A log line of one of the parts of the program. -/
def logLine (part text : String) : String := "DEBUG:src.compiler." ++ part ++ ":" ++ text ++ "\n"

/-- The log line of a notice. -/
def noticeLine : Notice → String
  | .entered depth =>
    logLine "semantics.scope" ("entered loop scope at depth " ++ toString depth)
  | .left depth removed =>
    logLine "semantics.scope"
      ("left loop scope at depth " ++ toString depth ++ ", removed " ++ toString removed ++
        " variable(s)")

/-- The log of an analysis. -/
def analysisLog (input : String) (analysis : Analysis Unit) : String :=
  logLine "main" ("analysing " ++ input) ++
  logLine "parser.core" "analysis started" ++
  String.join (analysis.notices.toList.map noticeLine) ++
  match analysis.outcome with
  | .ok _ =>
    logLine "parser.core"
      ("analysis finished, " ++ toString analysis.scopes.globals.size ++ " global variable(s)")
  | .error .tooDeep => logLine "main" ("recursion limit reached while analysing " ++ input)
  | .error _ => ""

/-- The mark of the lines of a trace. -/
def traceMarker : String := "rgg"

/-- What is written about the analysis of a source. -/
def reportAnalysis (options : Options) (source file : String) (analysis : Analysis Unit) : Output :=
  let trace := if options.quiet then "" else writeEvents traceMarker 0 analysis.events.toList
  let log := if options.verbose then analysisLog options.input analysis else ""
  match analysis.outcome with
  | .ok _ => ⟨0, trace ++ "Analysed " ++ options.input ++ ": no errors\n", log⟩
  | .error (.lexical e) => ⟨1, trace, log ++ lexicalReport source file e⟩
  | .error (.fault fault) => ⟨1, trace, log ++ faultReport source file fault⟩
  | .error .tooDeep =>
    ⟨1, trace, log ++ "error: " ++ file ++ ": program nests too deeply to analyse\n"⟩

/-- What is written about a source. -/
def runSource (options : Options) (source : String) : Output :=
  let file := baseName options.input
  if options.emitTokens then listTokens source file
  else reportAnalysis options source file (analyseWithin depthLimit (.ofSource source))

/-- A run with some options; `read` tells what a path leads to. -/
def runOptions (options : Options) (read : String → FileContent) : Except FileError Output :=
  match readSource read options.input with
  | .ok source => .ok (runSource options source)
  | .error (.missing path) => .ok ⟨1, "", "Error: File '" ++ path ++ "' not found\n"⟩
  | .error e => .error e

/-- A run of the program; `read` tells what a path leads to. -/
def run (args : List String) (read : String → FileContent) : Except FileError Output :=
  match parseArguments args with
  | .error e => .ok ⟨2, "", usageText ++ "rggc: error: " ++ e.message ++ "\n"⟩
  | .ok .help => .ok ⟨0, helpText, ""⟩
  | .ok (.run options) => runOptions options read

/-- Help writes nothing to the error stream. -/
theorem run_help {args : List String} (h : parseArguments args = .ok .help)
    (read : String → FileContent) : run args read = .ok ⟨0, helpText, ""⟩ := by
  simp [run, h]

end BlockLang.CommandLine
