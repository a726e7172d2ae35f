import BlockLang.CommandLine.Run
import BlockLang.Proofs.CommandLine.Flags
import BlockLang.Proofs.Editor.Agreement
import BlockLang.Proofs.Text.Encoding
import BlockLang.Proofs.Trace.Retelling

/-!
# What a run of the program writes

A run writes its trace and says at the end that there were no errors, or what it stopped at. Its
exit code and its error stream tell the same: both are clean exactly if the analysis ends well. The
trace does not change how a run ends, so a quiet run is the same run without it. A program that is
accepted has no lexical error, so a run that lists its tokens ends well, too.

## Main definitions

* `stopReport source file stop`: what is written about the stop of an analysis
* `Reports input source outcome trace out`: how an analysis is reported
* `Lists input source out`: how tokens are listed
* `normalised text`, `traceOf options source`: what is analysed, and the trace of that

## Main results

* `Fault.rendered_eq`: a fault is rendered with one line for each of its links
* `command_line_contract`: what a run writes about a file
-/

namespace BlockLang

/-- The line of a link of a fault that has some links around it. -/
def FaultLink.lineAt (indent : String) (depth : Nat) (link : FaultLink) : String :=
  String.join (List.replicate depth indent) ++ (if depth = 0 then "" else "caused by: ") ++
    link.text

theorem Fault.causeLines_eq (indent : String) (depth : Nat) (links : List FaultLink) :
    causeLines indent (depth + 1) links =
      links.mapIdx fun k link => link.lineAt indent (depth + k + 1) := by
  induction links generalizing depth with
  | nil => rfl
  | cons link rest ih =>
    have deeper (k : Nat) : depth + 1 + k + 1 = depth + (k + 1) + 1 := by omega
    rw [causeLines, ih, List.mapIdx_cons]
    simp only [deeper]
    rfl

/-- A fault is rendered with one line for each of its links, the outermost first. -/
theorem Fault.rendered_eq (indent : String) (f : Fault) :
    f.rendered indent =
      String.intercalate "\n" (f.links.mapIdx fun depth link => link.lineAt indent depth) := by
  have outermost : f.head.text = f.head.lineAt indent 0 := by simp [FaultLink.lineAt, String.join]
  rw [rendered, links, List.mapIdx_cons, ← outermost, causeLines_eq]
  simp only [Nat.zero_add]

namespace CommandLine

open File

/-- What is written about the stop of an analysis: a lexical error in the source, the chain of a
fault and its first cause in the source, or that too many productions were open. -/
def stopReport (source file : String) : Stop → String
  | .lexical e => annotate source file e.message e.position.line e.position.col ++ "\n"
  | .fault f =>
    String.intercalate "\n" (f.links.mapIdx fun depth link => link.lineAt "  " depth) ++ "\n" ++
      annotate source file f.root.message f.root.position.line f.root.position.col ++ "\n"
  | .tooDeep => "error: " ++ file ++ ": program nests too deeply to analyse\n"

/-- How an analysis is reported: the trace is followed by the word that there were no errors if
there were none, and what the analysis stopped at goes to the error stream. -/
structure Reports (input source : String) (outcome : Except Stop Unit) (trace : String)
    (out : Output) : Prop where
  exit : out.exit = 0 ↔ outcome = .ok ()
  clean : out.stderr = "" ↔ outcome = .ok ()
  accepted : outcome = .ok () → out.stdout = trace ++ ("Analysed " ++ input ++ ": no errors\n")
  stopped : ∀ stop, outcome = .error stop →
    out.exit = 1 ∧ out.stdout = trace ∧ out.stderr = stopReport source (baseName input) stop

/-- How tokens are listed: one on each line, or the lexical error goes to the error stream. -/
structure Lists (input source : String) (out : Output) : Prop where
  exit : out.exit = 0 ↔ ∃ tokens, tokenize source = .ok tokens
  listed : ∀ tokens, tokenize source = .ok tokens →
    out.stdout = String.join (tokens.map fun token => token.listing ++ "\n") ∧ out.stderr = ""
  stopped : ∀ e, tokenize source = .error e →
    out.exit = 1 ∧ out.stdout = "" ∧ out.stderr = stopReport source (baseName input) (.lexical e)

/-- Something is written about every stop. -/
theorem stopReport_ne_empty (source file : String) (stop : Stop) :
    stopReport source file stop ≠ "" := by
  cases stop <;> simp [stopReport]

theorem faultReport_eq (source file : String) (f : Fault) :
    faultReport source file f = stopReport source file (.fault f) := by
  simp only [faultReport, stopReport, Fault.rendered_eq]

theorem reports_reportAnalysis {options : Options} (terse : options.verbose = false)
    (source : String) (analysis : Analysis Unit) :
    Reports options.input source analysis.outcome
      (if options.quiet then "" else writeEvents traceMarker 0 analysis.events.toList)
      (reportAnalysis options source (baseName options.input) analysis) := by
  cases how : analysis.outcome with
  | ok a =>
    have wrote : reportAnalysis options source (baseName options.input) analysis =
        ⟨0, (if options.quiet then "" else writeEvents traceMarker 0 analysis.events.toList) ++
          ("Analysed " ++ options.input ++ ": no errors\n"), ""⟩ := by
      simp [reportAnalysis, how, terse, String.append_assoc]
    rw [wrote]
    exact ⟨by simp, by simp, by simp, nofun⟩
  | error stop =>
    have wrote : reportAnalysis options source (baseName options.input) analysis =
        ⟨1, if options.quiet then "" else writeEvents traceMarker 0 analysis.events.toList,
          stopReport source (baseName options.input) stop⟩ := by
      cases stop with
      | fault f => simp [reportAnalysis, how, terse, faultReport_eq]
      | lexical e => simp [reportAnalysis, how, terse, lexicalReport, stopReport]
      | tooDeep => simp [reportAnalysis, how, terse, stopReport]
    rw [wrote]
    exact ⟨by simp, by simp [stopReport_ne_empty], nofun, by simp⟩

theorem lists_listTokens (input source : String) :
    Lists input source (listTokens source (baseName input)) := by
  unfold listTokens
  cases lexed : tokenize source with
  | error e => exact ⟨by simp [lexed], by simp [lexed], by simp [lexed, stopReport, lexicalReport]⟩
  | ok tokens => exact ⟨by simp [lexed], by simp [lexed], by simp [lexed]⟩

/-- An analysis that writes its trace ends as the recorded one does, and writes its entries. -/
theorem analyseWithin_indented (limit : Nat) (stream : TokenStream) (marker : String) :
    (analyseWithin limit stream (IndentedSink marker)).outcome =
        (analyseWithin limit stream).outcome ∧
      (analyseWithin limit stream (IndentedSink marker)).events.text =
        writeEvents marker 0 (analyseWithin limit stream).events.toList := by
  rw [analyseWithin_eq_tellAll (σ := IndentedSink marker)]
  simp [Analysis.retold, tellAll_indented, TraceSink.start]

section

variable {args : List String} {options : Options} {read : String → FileContent} {text : String}

/-- The text with line feeds as its only line ends. -/
def normalised (text : String) : String := String.ofList (Text.unifyNewlines text.toList)

/-- A file that can be read is read and worked on. -/
theorem run_eq (parsed : parseArguments args = .ok (.run options))
    (path : holdsNull options.input = false)
    (there : read options.input = .bytes text.toUTF8.data.toList) :
    run args read = .ok (runSource options (normalised text)) := by
  unfold run
  rw [parsed]
  dsimp only
  rw [runOptions, readSource_bytes path there, decodeSource, Text.decode_toUTF8]
  rfl

/-- The run with one more flag works on the same file. -/
theorem run_flagged {flag : Flag} {flagged : List String} (h : Flagged flag args flagged)
    (proper : flag ≠ .help) (parsed : parseArguments args = .ok (.run options))
    (path : holdsNull options.input = false)
    (there : read options.input = .bytes text.toUTF8.data.toList) :
    run flagged read = .ok (runSource (options.with flag) (normalised text)) := by
  rw [← Options.input_with flag options] at path there
  exact run_eq (h.parseArguments_eq proper parsed) path there

theorem lists_runSource (emits : options.emitTokens = true) (source : String) :
    Lists options.input source (runSource options source) := by
  rw [runSource, emits]
  exact lists_listTokens options.input source

theorem runSource_of_analyses (analyses : options.emitTokens = false) (source : String) :
    runSource options source = reportAnalysis options source (baseName options.input)
      (analyseWithin depthLimit (.ofSource source)) := by
  simp [runSource, analyses]

/-- The trace of the analysis of a source, as a run with some options writes it. -/
def traceOf (options : Options) (source : String) : String :=
  if options.quiet then ""
  else (analyseWithin depthLimit (.ofSource source) (IndentedSink traceMarker)).events.text

theorem reports_runSource (terse : options.verbose = false) (analyses : options.emitTokens = false)
    (source : String) :
    Reports options.input source (analyseWithin depthLimit (.ofSource source)).outcome
      (traceOf options source) (runSource options source) := by
  rw [runSource_of_analyses analyses, traceOf, (analyseWithin_indented _ _ _).2]
  exact reports_reportAnalysis terse source _

/-- A quiet run ends alike and writes all but the trace. -/
theorem runSource_quiet (terse : options.verbose = false) (analyses : options.emitTokens = false)
    (source : String) :
    (runSource (options.with .quiet) source).exit = (runSource options source).exit ∧
      (runSource (options.with .quiet) source).stderr = (runSource options source).stderr ∧
      (runSource options source).stdout =
        traceOf options source ++ (runSource (options.with .quiet) source).stdout := by
  have still : (options.with .quiet).emitTokens = false := analyses
  rw [runSource_of_analyses analyses, runSource_of_analyses still, traceOf, Options.input_with,
    (analyseWithin_indented _ _ _).2]
  generalize analyseWithin depthLimit (.ofSource source) = analysis
  simp only [reportAnalysis, Options.with, terse]
  cases analysis.outcome with
  | ok a => simp [String.append_assoc]
  | error stop => cases stop <;> simp

/-- What a run without a log writes about a file that holds a text. The analysis of the text, with
line feeds as its line ends, is reported after its trace, and the exit code is zero exactly if it
ends well. One more flag for quiet changes neither how the run ends nor its error stream, and takes
away the trace. With one more flag for tokens the exit code is zero exactly if there is no lexical
error; so it is if the analysis ends well. A path alone asks for a run without any flags. -/
theorem command_line_contract (parsed : parseArguments args = .ok (.run options))
    (terse : options.verbose = false) (path : holdsNull options.input = false)
    (there : read options.input = .bytes text.toUTF8.data.toList) :
    (∀ file : String, file.toList.head? ≠ some '-' →
      parseArguments [file] = .ok (.run ⟨file, false, false, false⟩)) ∧
    ∃ out, run args read = .ok out ∧
      (options.emitTokens = true → Lists options.input (normalised text) out) ∧
      (options.emitTokens = false →
        Reports options.input (normalised text)
          (analyseWithin depthLimit (.ofSource (normalised text))).outcome
          (traceOf options (normalised text)) out ∧
        (∀ quieted, Flagged .quiet args quieted → ∃ hushed, run quieted read = .ok hushed ∧
          hushed.exit = out.exit ∧ hushed.stderr = out.stderr ∧
          out.stdout = traceOf options (normalised text) ++ hushed.stdout) ∧
        ∀ listing, Flagged .emitTokens args listing → ∃ listed, run listing read = .ok listed ∧
          Lists options.input (normalised text) listed ∧ (out.exit = 0 → listed.exit = 0)) := by
  refine ⟨fun file => parseArguments_path, _, run_eq parsed path there,
    fun emits => lists_runSource emits _, fun analyses => ?_⟩
  have reports := reports_runSource terse analyses (normalised text)
  refine ⟨reports, fun quieted flagged => ?_, fun listing flagged => ?_⟩
  · exact ⟨_, run_flagged flagged nofun parsed path there, runSource_quiet terse analyses _⟩
  · have emits : (options.with .emitTokens).emitTokens = true := rfl
    have lists := lists_runSource emits (normalised text)
    rw [Options.input_with] at lists
    -- A program that is accepted has no lexical error.
    exact ⟨_, run_flagged flagged nofun parsed path there, lists, fun accepted =>
      lists.exit.mpr (lexed_of_ok (reports.exit.mp accepted))⟩

end

/-- A program with two kinds of line end, which hands over a variable that was not declared. -/
def callingProgram : String := "begin\r\ncall foo(x)\nend"

/-- A directory with this program alone. -/
def callingDirectory (path : String) : FileContent :=
  if path = "dir/prog.rgg" then .bytes callingProgram.toUTF8.data.toList else .missing

theorem command_line_contract_calling :
    parseArguments ["dir/prog.rgg"] = .ok (.run ⟨"dir/prog.rgg", false, false, false⟩) ∧
      callingDirectory "dir/prog.rgg" = .bytes callingProgram.toUTF8.data.toList ∧
      ∃ out, run ["dir/prog.rgg"] callingDirectory = .ok out ∧ out.exit ≠ 0 ∧ out.stderr ≠ "" ∧
        (∃ hushed, run ["dir/prog.rgg", "-q"] callingDirectory = .ok hushed ∧
          hushed.exit = out.exit ∧ hushed.stderr = out.stderr ∧
          out.stdout = traceOf ⟨"dir/prog.rgg", false, false, false⟩ (normalised callingProgram) ++
            hushed.stdout) ∧
        ∃ listed, run ["--emit-tokens", "dir/prog.rgg"] callingDirectory = .ok listed ∧
          listed.exit = 0 := by
  have parsed : parseArguments ["dir/prog.rgg"] =
      .ok (.run ⟨"dir/prog.rgg", false, false, false⟩) := parseArguments_path (by decide)
  have there : callingDirectory "dir/prog.rgg" = .bytes callingProgram.toUTF8.data.toList := rfl
  have refused : (analyseWithin depthLimit (.ofSource (normalised callingProgram))).outcome ≠
      .ok () := by
    decide +kernel
  obtain ⟨-, out, ran, -, told⟩ := command_line_contract parsed rfl (by decide) there
  obtain ⟨reports, quiet, listing⟩ := told rfl
  obtain ⟨listed, lists, reads, -⟩ := listing ["--emit-tokens", "dir/prog.rgg"]
    (.first (by decide))
  have lexed : ∃ tokens, tokenize (normalised callingProgram) = .ok tokens := by
    have read : (tokenize (normalised callingProgram)).isOk := by decide +kernel
    cases lexed : tokenize (normalised callingProgram) with
    | error e => simp [lexed, Except.toBool] at read
    | ok tokens => exact ⟨tokens, rfl⟩
  have hushes : Flagged .quiet (["dir/prog.rgg"] ++ []) (["dir/prog.rgg"] ++ "-q" :: []) :=
    .between (by decide) (by decide)
  exact ⟨parsed, there, out, ran, mt reports.exit.mp refused, mt reports.clean.mp refused,
    quiet _ hushes, listed, lists, reads.exit.mpr lexed⟩

end CommandLine

end BlockLang
