import BlockLang.Proofs.Editor.Agreement
import BlockLang.Proofs.Trace.Lines
import BlockLang.Report

/-!
# Carets of reports

An error of a source is reported with five lines. The fourth shows the line of the source on which
the error stands, and the caret of the fifth stands under the first character of what is wrong
there: the character that begins no lexeme, the quote of a string constant without an end, or the
token that the fault is about. Where the end of the file is wrong, it stands just behind the line.

## Main definitions

* `lineAround front rest`: the line on which a place of a text stands
* `SourceReport`: the lines of an annotated report
* `SourceReport.PointsAt a front rest`: the caret stands under this place
* `ReportPointsAt source file message p front rest`: so does the one of the report of an error

## Main results

* `lineAt?_behind`: the line of a source on which a place of it stands
* `reportPointsAt_behind`: the report of an error at a place points at it
* `exists_deliveredAt_of_fault`: a fault stands at the place of a token
* `report_points_at_culprit`: the reports of the errors of an analysis
-/

namespace BlockLang

variable {source file message : String} {limit : Nat} {f : Fault} {e : LexicalError} {c : Char}
  {front rest cs : List Char}

/-! ## Lines around places -/

/-- The line of a text on which a place of it stands, the place between `front` and `rest`. -/
def lineAround (front rest : List Char) : List Char :=
  front.rtakeWhile (· ≠ '\n') ++ rest.takeWhile (· ≠ '\n')

/-- The place behind a character is on the line of the one before it. -/
theorem lineAround_concat (h : c ≠ '\n') (front rest : List Char) :
    lineAround (front ++ [c]) rest = lineAround front (c :: rest) := by
  simp [lineAround, h]

theorem lineFeed_notMem_lineAround (front rest : List Char) : '\n' ∉ lineAround front rest := by
  intro h
  rcases List.mem_append.mp h with h | h
  · simpa using List.mem_rtakeWhile_imp h
  · simpa using List.mem_takeWhile_imp h

/-- The part with a place in it is the line on which the place stands. -/
theorem getElem?_parts (front rest : List Char) :
    (Text.parts '\n' (front ++ rest))[front.count '\n']? = some (lineAround front rest) := by
  induction front using List.reverseRecOn generalizing rest with
  | nil =>
    rw [List.nil_append, List.count_nil, ← List.head?_eq_getElem?, Text.head?_parts]
    rfl
  | append_singleton front c ih =>
    rw [List.append_assoc, List.singleton_append]
    by_cases hc : c = '\n'
    · -- The place is at the start of a line, and all parts before it are those of `front`.
      subst hc
      have before : (front ++ ['\n']).count '\n' = (Text.parts '\n' front).length := by
        simp [Text.length_parts]
      rw [Text.parts_append_cons, before, List.getElem?_append_right (Nat.le_refl _), Nat.sub_self,
        ← List.head?_eq_getElem?, Text.head?_parts]
      simp [lineAround]
    · rw [lineAround_concat hc, ← ih]
      simp [hc]

/-- The line of a source on which a place of it stands. -/
theorem lineAt?_behind (text : source.toList = front ++ rest) :
    lineAt? source (Position.behind front).line = some (String.ofList (lineAround front rest)) := by
  have first : ¬(Position.behind front).line < 1 := by
    simp only [Position.behind]
    omega
  have index : ((Position.behind front).line - 1).toNat = front.count '\n' := by
    simp only [Position.behind]
    omega
  rw [lineAt?, if_neg first, index, linesOf, text, List.getElem?_map, getElem?_parts]
  rfl

/-! ## Annotated reports -/

/-- The lines of an annotated report. The fourth shows a line of a source behind a gutter, and the
fifth has a caret behind a margin. -/
structure SourceReport where
  heading : String
  place : String
  bar : String
  gutter : String
  line : String
  margin : String

namespace SourceReport

/-- The line of the report with the line of the source. -/
def shown (a : SourceReport) : String := a.gutter ++ a.line

/-- The line of the report with the caret. -/
def pointer (a : SourceReport) : String := a.margin ++ "^"

def lines (a : SourceReport) : List String := [a.heading, a.place, a.bar, a.shown, a.pointer]

/-- The report shows the whole line on which the place between `front` and `rest` stands, and its
caret stands under this place: above it is the character that comes next, and behind all of the text
the caret stands just behind the line. -/
structure PointsAt (a : SourceReport) (front rest : List Char) : Prop where
  line_eq : a.line.toList = lineAround front rest
  onlyCaret : '^' ∉ a.margin.toList
  column_eq : a.margin.length = a.gutter.length + (front.rtakeWhile (· ≠ '\n')).length
  above : ∀ c ∈ rest.head?, a.shown.toList[a.margin.length]? = some c
  behind : rest = [] → a.margin.length = a.shown.length

/-- The caret stands under a place if its margin is as wide as the gutter and what stands before the
place on its line. -/
theorem pointsAt {a : SourceReport} (line_eq : a.line.toList = lineAround front rest)
    (onlyCaret : '^' ∉ a.margin.toList)
    (column_eq : a.margin.length = a.gutter.length + (front.rtakeWhile (· ≠ '\n')).length)
    (proper : '\n' ∉ rest.head?) : a.PointsAt front rest := by
  have shown : a.shown.toList = a.gutter.toList ++ front.rtakeWhile (· ≠ '\n') ++
      rest.takeWhile (· ≠ '\n') := by
    rw [SourceReport.shown, String.toList_append, line_eq, lineAround, List.append_assoc]
  have column : a.margin.length =
      (a.gutter.toList ++ front.rtakeWhile (· ≠ '\n')).length := by
    rw [column_eq, List.length_append, String.length_toList]
  refine ⟨line_eq, onlyCaret, column_eq, fun c hc => ?_, fun atEnd => ?_⟩
  · have first : c ≠ '\n' := fun same => proper (same ▸ hc)
    obtain ⟨cs, rfl⟩ : ∃ cs, rest = c :: cs := List.head?_eq_some_iff.mp hc
    rw [shown, column, List.getElem?_append_right (Nat.le_refl _), Nat.sub_self]
    simp [first]
  · rw [column, ← a.shown.length_toList, shown, atEnd, List.takeWhile_nil, List.append_nil]

end SourceReport

/-- The lines of the report of an error on a line of a source. -/
def sourceReport (file message : String) (line col : Int) (text : String) : SourceReport where
  heading := "error: " ++ message
  place := " " ++ blanks (toString line).length ++ "--> " ++ file ++ ":" ++ toString line ++ ":" ++
    toString col
  bar := " " ++ blanks (toString line).length ++ " |"
  gutter := " " ++ toString line ++ " | "
  line := text
  margin := " " ++ blanks (toString line).length ++ " | " ++ blanks (col - 1).toNat

theorem oneLine_blanks (n : Nat) : OneLine (blanks n) := by simp [OneLine, blanks]

theorem oneLine_sourceReport {text : String} (line col : Int) (said : OneLine message)
    (named : OneLine file) (plain : OneLine text) :
    ∀ l ∈ (sourceReport file message line col text).lines, OneLine l := by
  have number := oneLine_int line
  have margin := oneLine_blanks (toString line).length
  have blank : OneLine " " ∧ OneLine " |" ∧ OneLine " | " ∧ OneLine "^" := by decide
  have marks : OneLine "error: " ∧ OneLine "--> " ∧ OneLine ":" := by decide
  simp only [SourceReport.lines, SourceReport.shown, SourceReport.pointer, sourceReport,
    List.forall_mem_cons, oneLine_append, number, margin, blank, marks, said, named, plain,
    oneLine_int col, oneLine_blanks (col - 1).toNat, and_self, true_and]
  exact List.forall_mem_nil _

/-- A report that shows a line has five lines. -/
theorem linesOf_annotate {line col : Int} {text : String} (shows : lineAt? source line = some text)
    (said : OneLine message) (named : OneLine file) (plain : OneLine text) :
    linesOf (annotate source file message line col) =
      (sourceReport file message line col text).lines := by
  have written : annotate source file message line col =
      String.intercalate "\n" (sourceReport file message line col text).lines := by
    have bar : " |\n" = " |" ++ "\n" := rfl
    simp only [annotate, shows, SourceReport.lines, SourceReport.shown, SourceReport.pointer,
      sourceReport, String.intercalate_cons_cons, String.intercalate_singleton, bar,
      String.append_assoc]
  rw [written]
  exact linesOf_intercalate (oneLine_sourceReport line col said named plain)

/-- The report of an error at a place points at this place. -/
theorem pointsAt_sourceReport (file message : String) (line : Int) (proper : '\n' ∉ rest.head?) :
    (sourceReport file message line (Position.behind front).col
      (String.ofList (lineAround front rest))).PointsAt front rest := by
  have shift : ((Position.behind front).col - 1).toNat =
      (front.rtakeWhile (· ≠ '\n')).length := by
    simp only [Position.behind]
    omega
  refine SourceReport.pointsAt String.toList_ofList ?_ ?_ proper
  · simp [sourceReport, blanks]
  · simp [sourceReport, blanks, shift, String.length_append]

/-- The report of an error at a position has the five lines of a source report, which points at the
place between `front` and `rest`. -/
structure ReportPointsAt (source file message : String) (p : Position) (front rest : List Char) :
    Prop where
  lines_eq : linesOf (annotate source file message p.line p.col) =
    (sourceReport file message p.line p.col (String.ofList (lineAround front rest))).lines
  pointsAt : (sourceReport file message p.line p.col
    (String.ofList (lineAround front rest))).PointsAt front rest

/-- The report of an error at a place of a source points at this place. -/
theorem reportPointsAt_behind (text : source.toList = front ++ rest) (proper : '\n' ∉ rest.head?)
    (said : OneLine message) (named : OneLine file) :
    ReportPointsAt source file message (.behind front) front rest := by
  have plain : OneLine (String.ofList (lineAround front rest)) := by
    rw [OneLine, String.toList_ofList]
    exact lineFeed_notMem_lineAround front rest
  exact ⟨linesOf_annotate (lineAt?_behind text) said named plain,
    pointsAt_sourceReport file message _ proper⟩

/-! ## Places of errors -/

/-- An error that the lexer gives stands at the place of what is wrong. -/
theorem exists_deliveredAt_of_lexical
    (h : (analyseWithin limit (.ofSource source)).outcome = .error (.lexical e)) :
    ∃ front cs, source.toList = front ++ cs ∧ DeliveredAt front cs (.error e) := by
  obtain ⟨tokens, p, same, -⟩ := exists_delivers_of_error (tokenize_of_lexical h)
  have given : deliveriesOf source = tokens.map .ok ++ [.error e] := congrArg TokenStream.items same
  exact exists_deliveredAt_of_mem_deliveriesOf (given ▸ by simp)

/-- The end of the file of a source that is lexed stands behind all of it. -/
theorem endPosition_of_lexed {tokens : List Token} (lexed : tokenize source = .ok tokens) :
    (TokenStream.ofSource source).endPosition = .behind source.toList := by
  obtain ⟨before, last, same, all, delivers⟩ := exists_delivers_of_source source
  obtain ⟨t, rfl⟩ : ∃ t, last = .ok t :=
    items_of_lexed lexed last (by simp [TokenStream.ofSource, TokenStream.ofList, same])
  have given : .ok t ∈ deliveriesOf source := by simp [same]
  obtain ⟨front, cs, text, delivered⟩ := exists_deliveredAt_of_mem_deliveriesOf given
  have last_eq : t.type = .endOfFile := delivers.endOfFile t rfl
  have atEnd : cs = [] := by
    cases delivered with
    | token before => exact absurd last_eq before.type_ne_endOfFile
    | endOfFile => rfl
  have placed : t.position = .behind front := delivered.positionOf_eq
  simp [TokenStream.ofSource, TokenStream.ofList, same, TokenStream.positionOf, placed, text, atEnd]

/-- For an analysis that ended with a fault, the stream might as well have its end behind all of the
source. -/
theorem analyseWithin_of_fault
    (h : (analyseWithin limit (.ofSource source)).outcome = .error (.fault f)) :
    analyseWithin limit ⟨deliveriesOf source, .behind source.toList⟩ =
      analyseWithin limit (.ofSource source) := by
  cases lexed : tokenize source with
  | ok tokens => rw [← endPosition_of_lexed lexed]; rfl
  | error e =>
    obtain ⟨tokens, p, same, -⟩ := exists_delivers_of_error lexed
    have given : deliveriesOf source = tokens.map .ok ++ [.error e] :=
      congrArg TokenStream.items same
    rw [given]
    exact (exists_looked_of_fault same h).2 _

/-- The first cause of a fault stands at a token, and the token at its place in the source. -/
theorem exists_deliveredAt_of_fault
    (h : (analyseWithin limit (.ofSource source)).outcome = .error (.fault f)) :
    ∃ before token after, (analyseWithin limit (.ofSource source)).events.toList =
        before ++ .error token (.ofLink f.root) :: after ∧
      ErrorFree before ∧ f.root.position = token.position ∧
      ∃ front cs, source.toList = front ++ cs ∧ DeliveredAt front cs (.ok token) := by
  have hands : (TokenStream.mk (deliveriesOf source) (.behind source.toList)).Hands fun t =>
      ∃ front cs, source.toList = front ++ cs ∧ DeliveredAt front cs (.ok t) :=
    ⟨fun t ht => exists_deliveredAt_of_mem_deliveriesOf ht,
      source.toList, [], by rw [List.append_nil], .endOfFile⟩
  obtain ⟨before, token, after, told, errorFree, root⟩ := exists_root_event h
  have handed : Event.From _ (.error token (.ofLink f.root)) :=
    from_of_mem_trace hands _ (by rw [analyseWithin_of_fault h, told]; simp)
  exact ⟨before, token, after, told, errorFree, root, handed.1⟩

/-! ## Messages of errors -/

/-- The message of an error that the lexer gives has one line. -/
theorem DeliveredAt.oneLine_message (h : DeliveredAt front cs (.error e)) : OneLine e.message := by
  have proper := h.lineFeed_notMem_head?
  cases h with
  | error stands =>
    cases stands with
    | unterminatedString => exact (by decide +kernel : OneLine "Unterminated string literal")
    | @unexpected c =>
      have first : c ≠ '\n' := fun same => proper (same ▸ rfl)
      have quoted : OneLine c.toString := by simpa [OneLine] using first.symm
      have said : OneLine ("Unexpected character '" ++ c.toString ++ "'") :=
        oneLine_append.mpr ⟨oneLine_append.mpr ⟨by decide +kernel, quoted⟩, by decide⟩
      exact said

/-- The message of the first cause of a fault has one line. -/
theorem oneLine_root (h : (analyseWithin limit (.ofSource source)).outcome = .error (.fault f)) :
    OneLine f.root.message := by
  obtain ⟨before, token, after, told, -⟩ := exists_root_event h
  have handed : Event.From (fun t => OneLine t.value) (.error token (.ofLink f.root)) :=
    from_of_mem_trace (hands_ofSource source) _ (by rw [told]; simp)
  have body := handed.oneLine.2
  simp only [Event.body, oneLine_append] at body
  exact body.1.1

/-! ## Reports -/

/-- The report of the error that an analysis ends with has five lines, and its caret stands under
the first character of what is wrong: the character that begins no lexeme, the quote of a string
constant without an end, or the first character of the token that the fault was told of at. Where
this is the end of the file, the caret stands just behind the last line. -/
theorem report_points_at_culprit (limit : Nat) (source : String) (named : OneLine file) :
    (∀ e, (analyseWithin limit (.ofSource source)).outcome = .error (.lexical e) →
      ∃ front cs, source.toList = front ++ cs ∧ DeliveredAt front cs (.error e) ∧
        ReportPointsAt source file e.message e.position front cs) ∧
    ∀ f, (analyseWithin limit (.ofSource source)).outcome = .error (.fault f) →
      ∃ before token after, (analyseWithin limit (.ofSource source)).events.toList =
          before ++ .error token (.ofLink f.root) :: after ∧ ErrorFree before ∧
        ∃ front cs, source.toList = front ++ cs ∧ DeliveredAt front cs (.ok token) ∧
          ReportPointsAt source file f.root.message f.root.position front cs := by
  refine ⟨fun e lexical => ?_, fun f faulty => ?_⟩
  · obtain ⟨front, cs, text, delivered⟩ := exists_deliveredAt_of_lexical lexical
    have placed : e.position = .behind front := delivered.positionOf_eq
    refine ⟨front, cs, text, delivered, ?_⟩
    rw [placed]
    exact reportPointsAt_behind text delivered.lineFeed_notMem_head? delivered.oneLine_message named
  · obtain ⟨before, token, after, told, errorFree, root, front, cs, text, delivered⟩ :=
      exists_deliveredAt_of_fault faulty
    have placed : token.position = .behind front := delivered.positionOf_eq
    refine ⟨before, token, after, told, errorFree, front, cs, text, delivered, ?_⟩
    rw [root, placed]
    exact reportPointsAt_behind text delivered.lineFeed_notMem_head? (oneLine_root faulty) named

/-- A string constant that does not end on its line. -/
def openString : String := "begin\n\tx := \"a;\nend"

/-- A block whose end is missing, with a line feed behind it. -/
def openBlock : String := "begin x := 1\n"

/-- A program of ten lines with an assignment behind it. -/
def laggardSource : String := "begin\n\n\n\n\n\n\n\n  x := 1\nend y := 2"

/-- What the analysis says about the block. -/
def openBlockFault : Fault :=
  ⟨⟨.passage "StatementPart", "error caught in StatementPart", ⟨2, 1⟩⟩,
    [⟨.parse, "expected 'end', got end of file", ⟨2, 1⟩⟩]⟩

theorem report_points_at_culprit_laggardSource :
    OneLine "a.rgg" ∧
    (analyseWithin depthLimit (.ofSource openString)).outcome =
      .error (.lexical ⟨"Unterminated string literal", ⟨2, 7⟩⟩) ∧
    (∃ front cs, openString.toList = front ++ cs ∧
      DeliveredAt front cs (.error ⟨"Unterminated string literal", ⟨2, 7⟩⟩) ∧
      ReportPointsAt openString "a.rgg" "Unterminated string literal" ⟨2, 7⟩ front cs) ∧
    (analyseWithin depthLimit (.ofSource openBlock)).outcome = .error (.fault openBlockFault) ∧
    (∃ before token after, (analyseWithin depthLimit (.ofSource openBlock)).events.toList =
        before ++ .error token (.ofLink openBlockFault.root) :: after ∧ ErrorFree before ∧
      ∃ front cs, openBlock.toList = front ++ cs ∧ DeliveredAt front cs (.ok token) ∧
        ReportPointsAt openBlock "a.rgg" "expected 'end', got end of file" ⟨2, 1⟩ front cs) ∧
    (analyseWithin depthLimit (.ofSource laggardSource)).outcome =
      .error (.fault (.ofLink
        ⟨.parse, "unexpected identifier 'y' after end of program", ⟨10, 5⟩⟩)) ∧
    ∃ before token after, (analyseWithin depthLimit (.ofSource laggardSource)).events.toList =
        before ++ .error token (.ofLink
          ⟨.parse, "unexpected identifier 'y' after end of program", ⟨10, 5⟩⟩) :: after ∧
        ErrorFree before ∧
      ∃ front cs, laggardSource.toList = front ++ cs ∧ DeliveredAt front cs (.ok token) ∧
        ReportPointsAt laggardSource "a.rgg" "unexpected identifier 'y' after end of program"
          ⟨10, 5⟩ front cs := by
  have named : OneLine "a.rgg" := by decide
  have string : (analyseWithin depthLimit (.ofSource openString)).outcome =
      .error (.lexical ⟨"Unterminated string literal", ⟨2, 7⟩⟩) := by decide +kernel
  have block : (analyseWithin depthLimit (.ofSource openBlock)).outcome =
      .error (.fault openBlockFault) := by decide +kernel
  have laggard : (analyseWithin depthLimit (.ofSource laggardSource)).outcome =
      .error (.fault (.ofLink
        ⟨.parse, "unexpected identifier 'y' after end of program", ⟨10, 5⟩⟩)) := by decide +kernel
  exact ⟨named, string, (report_points_at_culprit depthLimit openString named).1 _ string,
    block, (report_points_at_culprit depthLimit openBlock named).2 _ block,
    laggard, (report_points_at_culprit depthLimit laggardSource named).2 _ laggard⟩

example : annotate laggardSource "a.rgg" "unexpected identifier 'y' after end of program" 10 5 =
    "error: unexpected identifier 'y' after end of program\n" ++ "   --> a.rgg:10:5\n" ++
      "    |\n" ++ " 10 | end y := 2\n" ++ "    |     ^" := by
  decide +kernel

end BlockLang
