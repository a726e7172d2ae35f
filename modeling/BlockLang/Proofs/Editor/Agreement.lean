import BlockLang.Editor.Diagnostic
import BlockLang.Proofs.Fault.Chain
import BlockLang.Proofs.Lexing.Deliveries
import BlockLang.Proofs.Run.Causality
import BlockLang.Proofs.Trace.Speech

/-!
# Editors and analyses

An editor lexes all of a document before it has it analysed, while an analysis takes the tokens of a
source one by one. Yet the editor shows a diagnostic just when the analysis fails. It is the error
that the analysis ended with, unless the analysis came to an end before a lexical error behind it:
then the editor shows that one.

## Main definitions

* `DocumentAnalysis.Unlexed d e`: the document shows the lexical error, and has nothing else
* `DocumentAnalysis.Faulty d f`: the document shows the first cause of the fault
* `Agrees source analysis d`: the document agrees with the analysis of its source

## Main results

* `exists_root_token`: a fault stands at a token that was handed out
* `lexed_of_ok`: a program that is accepted has no lexical error
* `editor_agrees_with_analysis`: every document agrees with the analysis of its source
-/

namespace BlockLang

variable {T : Token → Prop} {limit : Nat} {stream : TokenStream} {source : String} {f : Fault}
  {e : LexicalError}

/-! ## Places of faults and errors -/

/-- The first error that an analysis tells of is the first cause of its fault. -/
theorem exists_root_event (h : (analyseWithin limit stream).outcome = .error (.fault f)) :
    ∃ before token after, (analyseWithin limit stream).events.toList =
        before ++ .error token (.ofLink f.root) :: after ∧
      ErrorFree before ∧ f.root.position = token.position := by
  obtain ⟨first, input, t, -, run, left⟩ := exists_run_of_fault h
  obtain ⟨before, token, cause, productions, unwinds, -, trailing⟩ := exists_unwinding run
  have told := unwinds.toldOf trailing
  rw [left]
  exact ⟨before, token, _, told.events_eq, told.errorFree,
    congrArg FaultLink.position unwinds.root_eq⟩

/-- A fault stands at a token that was handed out. -/
theorem exists_root_token (hands : stream.Hands T)
    (h : (analyseWithin limit stream).outcome = .error (.fault f)) :
    ∃ token, T token ∧ f.root.position = token.position := by
  obtain ⟨before, token, after, told, -, root⟩ := exists_root_event h
  have handed : Event.From T (.error token (.ofLink f.root)) :=
    from_of_mem_trace hands _ (by rw [told]; simp)
  exact ⟨token, handed.1, root⟩

/-- Every token of a source stands at or behind its start. -/
theorem hands_placed (source : String) :
    (TokenStream.ofSource source).Hands fun t => ∃ run, t.position = Position.start.after run := by
  obtain ⟨tokens, last, same, -, delivers⟩ := exists_delivers_of_source source
  rw [TokenStream.ofSource, same]
  constructor
  · intro t ht
    rcases List.mem_append.mp ht with ht | ht
    · obtain ⟨u, hu, same⟩ := List.mem_map.mp ht
      exact Except.ok.inj same ▸ delivers.placed u hu
    · obtain rfl := List.mem_singleton.mp ht
      exact delivers.last_placed
  · obtain ⟨run, hr⟩ := delivers.last_placed
    exact ⟨run, by simp [TokenStream.ofList, TokenStream.endToken, hr]⟩

theorem Position.one_le_after (run : List Char) {p : Position} (h : 1 ≤ p.line ∧ 1 ≤ p.col) :
    1 ≤ (p.after run).line ∧ 1 ≤ (p.after run).col := by
  induction run generalizing p with
  | nil => exact h
  | cons c run ih =>
    rw [after_cons]
    refine ih ?_
    unfold advance
    split
    · exact ⟨by simp only; omega, le_refl 1⟩
    · exact ⟨h.1, by simp only; omega⟩

/-- An editor counts from zero what stands at or behind the start of a source. -/
theorem toEditor_after (run : List Char) :
    Editor.toEditor (Position.start.after run).line (Position.start.after run).col =
      ⟨(Position.start.after run).line - 1, (Position.start.after run).col - 1⟩ := by
  obtain ⟨line, col⟩ := Position.one_le_after run (p := .start) ⟨le_refl 1, le_refl 1⟩
  rw [Editor.toEditor, max_eq_right (by omega), max_eq_right (by omega)]

/-- The tokens of a source that is not lexed, and its first error behind them. -/
theorem exists_delivers_of_error (h : tokenize source = .error e) :
    ∃ tokens p, TokenStream.ofSource source = ⟨tokens.map .ok ++ [.error e], p⟩ ∧
      Delivers .start tokens (.error e) := by
  obtain ⟨tokens, last, same, lexed, delivers⟩ := exists_delivers_of_source source
  rw [h] at lexed
  cases last with
  | ok t => cases lexed
  | error e' =>
    cases lexed
    exact ⟨tokens, _, by rw [TokenStream.ofSource, same]; rfl, delivers⟩

/-- A source that is lexed delivers tokens only. -/
theorem items_of_lexed {tokens : List Token} (h : tokenize source = .ok tokens) :
    ∀ d ∈ (TokenStream.ofSource source).items, ∃ t, d = .ok t := by
  intro d hd
  have given : d ∈ tokens.map Except.ok := deliveriesOf_of_tokenize h ▸ hd
  obtain ⟨t, -, rfl⟩ := List.mem_map.mp given
  exact ⟨t, rfl⟩

/-- What an analysis took and looked at stands before an error that it did not meet. -/
theorem prefix_of_reaches {tokens : List Token} {p : Position} {first : Token}
    {input : TokenStream} {t : AnalyserState}
    (same : TokenStream.ofSource source = ⟨tokens.map .ok ++ [.error e], p⟩)
    (hp : (TokenStream.ofSource source).pull = (.ok first, input))
    (reached : Reaches (.start first input) t) : t.accepted ++ [t.lookahead] <+: tokens := by
  have front := reached.front_eq hp
  rw [same] at front
  refine prefix_of_front (p := p) (e := e) ?_
  rw [List.length_append, List.length_singleton, front, List.map_append]
  rfl

/-- A program that is accepted has no lexical error. -/
theorem lexed_of_ok (h : (analyseWithin limit (.ofSource source)).outcome = .ok ()) :
    ∃ tokens, tokenize source = .ok tokens := by
  cases lexed : tokenize source with
  | ok tokens => exact ⟨tokens, rfl⟩
  | error e =>
    -- The end of the file was looked at, which does not stand before an error.
    obtain ⟨tokens, p, same, delivers⟩ := exists_delivers_of_error lexed
    obtain ⟨first, input, t, hp, run, -⟩ := exists_run_of_ok h
    have read : t.accepted ++ [t.lookahead] <+: tokens :=
      prefix_of_reaches same hp (((composed_program limit).steady _).of_ok run)
    have proper := delivers.type_ne t.lookahead (read.subset (by simp))
    exact absurd (program_eq_ok_iff.mp run).2 proper

/-- The error that stopped an analysis was delivered behind the tokens that were taken. -/
theorem exists_front_of_lexical
    (h : (analyseWithin limit stream).outcome = .error (.lexical e)) :
    ∃ taken : List Token, stream.front (taken.length + 1) = taken.map .ok ++ [.error e] := by
  rcases hp : stream.pull with ⟨e' | first, input⟩
  · rw [analyseWithin_of_error hp] at h
    cases h
    exact ⟨[], by simp [TokenStream.front, hp]⟩
  · rw [analyseWithin_of_pull hp] at h
    obtain ⟨t, run⟩ := outcome_ofResult_eq_error_iff.mp h
    exact ⟨_, Breaks.front_eq (((composed_program limit).steady _).of_error run) hp⟩

/-- An error that stopped an analysis is the first of its source. -/
theorem tokenize_of_lexical
    (h : (analyseWithin limit (.ofSource source)).outcome = .error (.lexical e)) :
    tokenize source = .error e := by
  obtain ⟨taken, front⟩ := exists_front_of_lexical h
  cases lexed : tokenize source with
  | error e' =>
    obtain ⟨tokens, p, same, -⟩ := exists_delivers_of_error lexed
    rw [same] at front
    rw [error_eq_of_front front]
  | ok tokens =>
    have delivered : Except.error e ∈ (TokenStream.ofSource source).front (taken.length + 1) := by
      simp [front]
    obtain ⟨t, ⟨⟩⟩ := ok_of_mem_front (items_of_lexed lexed) delivered

/-- What is not read of a stream has no part in its end either. -/
theorem analyseWithin_eq_of_items {ds : List Delivery} {p q : Position}
    (h : (accepted (analyseWithin limit ⟨ds, p⟩).events.toList).length < ds.length) :
    analyseWithin limit ⟨ds, q⟩ = analyseWithin limit ⟨ds, p⟩ := by
  obtain ⟨k, hk⟩ := Nat.exists_eq_add_of_le (Nat.succ_le_of_lt h)
  refine (asks_accepted limit ⟨ds, p⟩ ⟨ds, q⟩ (TokenStream.front_eq_of_add (n := k) ?_).1).1
  rw [← hk, TokenStream.front_mk, TokenStream.front_mk]

/-- An analysis that ended with a fault did not come to a lexical error of the source. -/
theorem exists_looked_of_fault {tokens : List Token} {p : Position}
    (same : TokenStream.ofSource source = ⟨tokens.map .ok ++ [.error e], p⟩)
    (h : (analyseWithin limit (.ofSource source)).outcome = .error (.fault f)) :
    (∃ stopped ∈ tokens, (analyseWithin limit (.ofSource source)).lookahead = some stopped) ∧
      ∀ q, analyseWithin limit ⟨tokens.map .ok ++ [.error e], q⟩ =
        analyseWithin limit (.ofSource source) := by
  obtain ⟨first, input, t, hp, run, left⟩ := exists_run_of_fault h
  have read : t.accepted ++ [t.lookahead] <+: tokens :=
    prefix_of_reaches same hp (((composed_program limit).steady _).of_error run)
  refine ⟨⟨t.lookahead, read.subset (by simp), by rw [left]; rfl⟩, fun q => ?_⟩
  have few : (accepted (analyseWithin limit (.ofSource source)).events.toList).length <
      (tokens.map Except.ok ++ [Except.error e] : List Delivery).length := by
    have shorter := read.length_le
    rw [left]
    change t.accepted.length < _
    simp only [List.length_append, List.length_map, List.length_singleton] at shorter ⊢
    omega
  rw [same] at few ⊢
  exact analyseWithin_eq_of_items few

/-- A fault, and what the analysis looked at when it ended, stand before a lexical error of the
source. -/
theorem before_error_of_fault (lexed : tokenize source = .error e)
    (h : (analyseWithin limit (.ofSource source)).outcome = .error (.fault f)) :
    f.root.position < e.position ∧
      ∃ stopped, (analyseWithin limit (.ofSource source)).lookahead = some stopped ∧
        stopped.position < e.position ∧
        ∃ run, e.position = (stopped.position.after stopped.written).after run := by
  obtain ⟨tokens, p, same, delivers⟩ := exists_delivers_of_error lexed
  obtain ⟨⟨stopped, looked, left⟩, endless⟩ := exists_looked_of_fault same h
  refine ⟨?_, stopped, left, delivers.position_lt looked, delivers.behind _ looked⟩
  -- The end of the stream has no part in the run, so it may as well stand at the start.
  rw [← endless .start] at h
  have hands : (TokenStream.mk (tokens.map .ok ++ [.error e]) .start).Hands
      (·.position < e.position) := by
    constructor
    · intro u hu
      obtain ⟨v, hv, same⟩ : ∃ v ∈ tokens, Except.ok (ε := LexicalError) v = .ok u := by
        simpa using hu
      exact Except.ok.inj same ▸ delivers.position_lt hv
    · exact delivers.start_lt looked
  obtain ⟨token, before, root⟩ := exists_root_token hands h
  exact root ▸ before

/-! ## Documents -/

namespace Editor

/-- The document shows the lexical error at its place, counted from zero, and has nothing else. -/
structure DocumentAnalysis.Unlexed (d : DocumentAnalysis) (e : LexicalError) : Prop where
  diagnostics_eq : d.diagnostics =
    [⟨stretch ⟨e.position.line - 1, e.position.col - 1⟩ 1, e.message, some "LexerError"⟩]
  tokens_eq : d.tokens = none
  events_eq : d.events = []
  fault_eq : d.fault = none

/-- The document shows the first cause of the fault where it stands, counted from zero, and names
the productions that the fault passed through, if there are any. -/
structure DocumentAnalysis.Faulty (d : DocumentAnalysis) (f : Fault) : Prop where
  diagnostics_eq : ∃ diagnostic, d.diagnostics = [diagnostic] ∧
    diagnostic.range.start = ⟨f.root.position.line - 1, f.root.position.col - 1⟩ ∧
    diagnostic.message = f.root.message ++
      (if f.productions = [] then ""
        else " (in " ++ String.intercalate " > " f.productions ++ ")") ∧
    diagnostic.code = some f.root.kind.name
  fault_eq : d.fault = some f

/-- The document agrees with the analysis of its source. -/
structure Agrees (source : String) (analysis : Analysis Unit) (d : DocumentAnalysis) : Prop where
  clean_iff : d.diagnostics = [] ↔ analysis.outcome = .ok ()
  length_eq : analysis.outcome ≠ .ok () → d.diagnostics.length = 1
  lexed : ∀ tokens, tokenize source = .ok tokens →
    d.tokens = some tokens ∧ d.events = analysis.events.toList
  of_lexical : ∀ e, analysis.outcome = .error (.lexical e) →
    tokenize source = .error e ∧ d.Unlexed e
  of_fault : ∀ f, analysis.outcome = .error (.fault f) →
    (∃ tokens, tokenize source = .ok tokens) → d.Faulty f
  of_both : ∀ f e, analysis.outcome = .error (.fault f) → tokenize source = .error e →
    d.Unlexed e ∧ f.root.position < e.position ∧
      ∃ stopped, analysis.lookahead = some stopped ∧ stopped.position < e.position ∧
        ∃ run, e.position = (stopped.position.after stopped.written).after run

/-- A document with a lexical error. -/
theorem unlexed_analyseText (limit : Nat) (uri : String) (h : tokenize source = .error e) :
    (analyseText limit uri source).Unlexed e := by
  have text : analyseText limit uri source =
      ⟨uri, source, [lexicalDiagnostic e], none, [], none⟩ := by
    rw [analyseText, h]
  obtain ⟨tokens, p, -, delivers⟩ := exists_delivers_of_error h
  obtain ⟨run, placed⟩ : ∃ run, e.position = Position.start.after run := delivers.last_placed
  rw [text]
  refine ⟨?_, rfl, rfl, rfl⟩
  rw [lexicalDiagnostic, makeDiagnostic, placed, toEditor_after, max_self]

/-- A document that is lexed, and whose analysis ended with a fault. -/
theorem faulty_analyseText {tokens : List Token} (uri : String) (h : tokenize source = .ok tokens)
    (faulty : (analyseWithin limit (.ofSource source)).outcome = .error (.fault f)) :
    (analyseText limit uri source).Faulty f := by
  obtain ⟨token, ⟨run, placed⟩, root⟩ := exists_root_token (hands_placed source) faulty
  have shown : (analyseText limit uri source).diagnostics =
      [faultDiagnostic (analyseWithin limit (.ofSource source)).events.toList f] := by
    simp only [analyseText, h, faulty, stopDiagnostics]
  refine ⟨⟨_, shown, ?_, ?_, rfl⟩, by simp only [analyseText, h, faulty, faultOf?]⟩
  · rw [faultDiagnostic, makeDiagnostic_start, root, placed, toEditor_after]
  · simp only [faultDiagnostic, makeDiagnostic, faultMessage, List.isEmpty_iff]

/-- A document that is lexed has the diagnostics of the end of its analysis. -/
theorem diagnostics_analyseText {tokens : List Token} (limit : Nat) (uri : String)
    (h : tokenize source = .ok tokens) :
    (analyseText limit uri source).diagnostics =
      stopDiagnostics (analyseWithin limit (.ofSource source)).events.toList
        (analyseWithin limit (.ofSource source)).outcome := by
  rw [analyseText, h]

/-- A document with a lexical error agrees with the analysis of its source. -/
theorem agrees_of_error (uri : String) (h : tokenize source = .error e) :
    Agrees source (analyseWithin limit (.ofSource source)) (analyseText limit uri source) := by
  have unlexed := unlexed_analyseText limit uri h
  -- An analysis does not get past the error, so the program is not accepted.
  have fails : (analyseWithin limit (.ofSource source)).outcome ≠ .ok () := by
    intro ok
    obtain ⟨tokens, ht⟩ := lexed_of_ok ok
    cases h.symm.trans ht
  refine ⟨⟨fun clean => ?_, fun ok => absurd ok fails⟩, fun _ => ?_, fun tokens ht => ?_,
    fun e' lexical => ?_, fun f _ ⟨tokens, ht⟩ => ?_, fun f e' faulty same => ?_⟩
  · rw [unlexed.diagnostics_eq] at clean
    cases clean
  · rw [unlexed.diagnostics_eq]
    rfl
  · cases h.symm.trans ht
  · have same := tokenize_of_lexical lexical
    cases h.symm.trans same
    exact ⟨same, unlexed⟩
  · cases h.symm.trans ht
  · cases h.symm.trans same
    exact ⟨unlexed, before_error_of_fault h faulty⟩

/-- A document that is lexed agrees with the analysis of its source. -/
theorem agrees_of_lexed {tokens : List Token} (uri : String) (h : tokenize source = .ok tokens)
    (fits : (analyseWithin limit (.ofSource source)).outcome ≠ .error .tooDeep) :
    Agrees source (analyseWithin limit (.ofSource source)) (analyseText limit uri source) := by
  have shown := diagnostics_analyseText limit uri h
  have unbroken : ∀ e, (analyseWithin limit (.ofSource source)).outcome ≠ .error (.lexical e) :=
    fun e lexical => by cases h.symm.trans (tokenize_of_lexical lexical)
  -- So the analysis has no other end than a good one or a fault.
  have ends : (analyseWithin limit (.ofSource source)).outcome = .ok () ∨
      ∃ f, (analyseWithin limit (.ofSource source)).outcome = .error (.fault f) := by
    rcases ho : (analyseWithin limit (.ofSource source)).outcome with (f | e | _) | _
    · exact .inr ⟨f, rfl⟩
    · exact absurd ho (unbroken e)
    · exact absurd ho fits
    · exact .inl rfl
  refine ⟨?_, fun fails => ?_, fun tokens' ht => ?_, fun e lexical => absurd lexical (unbroken e),
    fun f faulty _ => faulty_analyseText uri h faulty, fun f e _ he => by cases h.symm.trans he⟩
  · rcases ends with ok | ⟨f, faulty⟩
    · rw [shown, ok]
      exact iff_of_true rfl rfl
    · rw [shown, faulty]
      exact iff_of_false nofun nofun
  · obtain ⟨f, faulty⟩ := ends.resolve_left fails
    rw [shown, faulty]
    rfl
  · cases h.symm.trans ht
    simp only [analyseText, h, true_and]

/-- Every document agrees with the analysis of its source, unless that is too deep. -/
theorem editor_agrees_with_analysis {uri path : String} (address : uriPath uri = .ok path)
    (fits : (analyseWithin limit (.ofSource source)).outcome ≠ .error .tooDeep) :
    ∃ d, analyseDocument limit uri source = .ok d ∧ d.uri = uri ∧ d.source = source ∧
      Agrees source (analyseWithin limit (.ofSource source)) d := by
  refine ⟨analyseText limit uri source, ?_, ?_, ?_, ?_⟩
  · rw [analyseDocument, address]
    rfl
  · rw [analyseText]
    split <;> rfl
  · rw [analyseText]
    split <;> rfl
  · cases lexed : tokenize source with
    | error e => exact agrees_of_error uri lexed
    | ok tokens => exact agrees_of_lexed uri lexed fits

/-- A call with an undeclared argument, and a character behind it that begins no lexeme. -/
def strayCall : String := "begin call foo(x) # end"

theorem editor_agrees_with_analysis_strayCall :
    uriPath "file:///tmp/my%20call.rgg" = .ok "/tmp/my call.rgg" ∧
      (analyseWithin depthLimit (.ofSource strayCall)).outcome ≠ .error .tooDeep ∧
      ∃ d, analyseDocument depthLimit "file:///tmp/my%20call.rgg" strayCall = .ok d ∧
        d.uri = "file:///tmp/my%20call.rgg" ∧ d.source = strayCall ∧
        Agrees strayCall (analyseWithin depthLimit (.ofSource strayCall)) d := by
  have address : uriPath "file:///tmp/my%20call.rgg" = .ok "/tmp/my call.rgg" := by
    decide +kernel
  have fits : (analyseWithin depthLimit (.ofSource strayCall)).outcome ≠ .error .tooDeep := by
    decide +kernel
  exact ⟨address, fits, editor_agrees_with_analysis address fits⟩

example : (analyseText depthLimit "file:///tmp/call.rgg" strayCall).diagnostics =
    [⟨⟨⟨0, 18⟩, ⟨0, 19⟩⟩, "Unexpected character '#'", some "LexerError"⟩] := by
  decide +kernel

end Editor

end BlockLang
