import BlockLang.Proofs.Fault.Chain
import BlockLang.Proofs.Trace.Lines
import BlockLang.Proofs.Trace.Nesting
import BlockLang.Proofs.Trace.Retelling

/-!
# Written traces

An analysis that writes its trace is the analysis that records it, and the text is the recorded
trace, one line for each entry, indented by a tab for every production around it. The indentation is
the number of open productions all along, so it never falls below zero and ends there, and an end
stands as far in as its begin.

## Main definitions

* `surrounding before e`: the productions around an entry
* `indentedLines marker before events`: the lines of a trace, told behind `before`
* `Written marker recorded written`: an analysis that writes its trace, beside the one that records
  it

## Main results

* `eventLines_eq_indentedLines`: the lines that the sink writes
* `writes_recorded_trace`: every analysis writes the trace that it records
-/

namespace BlockLang

/-! ## Lines of entries -/

/-- The productions around an entry, the outermost first. The begin and the end of a production
stand outside of it. -/
def surrounding (before : List Event) : Event → List String
  | .finish p => openProductions (before ++ [.finish p])
  | _ => openProductions before

/-- The line of an entry, told behind others, without its line feed. -/
def indentedLine (marker : String) (before : List Event) (e : Event) : String :=
  String.ofList (List.replicate (surrounding before e).length '\t') ++ marker ++ e.body.1 ++ " " ++
    e.body.2

/-- The lines of entries that are told behind others. -/
def indentedLines (marker : String) : List Event → List Event → List String
  | _, [] => []
  | before, e :: rest => indentedLine marker before e :: indentedLines marker (before ++ [e]) rest

variable {marker : String} {before events : List Event} {left : List String} {e : Event}

theorem length_openProductions (h : opened [] before = some left) :
    (openProductions before).length = left.length := by
  rw [openProductions, List.length_reverse, opened_eq h]

/-- The indentation behind a part of a trace is the number of open productions. -/
theorem finalLevel_eq (h : opened [] before = some left) :
    finalLevel 0 before = (openProductions before).length := by
  rw [length_openProductions h]
  exact finalLevel_of_opened h

/-- What the sink writes for an entry is its line. -/
theorem writeEvent_eq (h : opened [] (before ++ [e]) = some left) :
    writeEvent marker (finalLevel 0 before) e = indentedLine marker before e ++ "\n" := by
  have tabs : (levelBefore (finalLevel 0 before) e).toNat = (surrounding before e).length := by
    have whole := h
    rw [opened_append, Option.bind_eq_some_iff] at h
    obtain ⟨middle, hb, he⟩ := h
    have level := finalLevel_eq hb
    cases e with
    | finish p =>
      have after := finalLevel_eq whole
      simp only [finalLevel, List.foldl_append, List.foldl_cons, List.foldl_nil, levelAfter]
        at after
      rw [surrounding, levelBefore, finalLevel, after, Int.toNat_natCast]
    | _ => exact (congrArg Int.toNat level).trans (Int.toNat_natCast _)
  rw [writeEvent, tabs, indentedLine]

/-- The lines that the sink writes. -/
theorem eventLines_eq_indentedLines (h : opened [] (before ++ events) = some left) :
    eventLines marker (finalLevel 0 before) events =
      (indentedLines marker before events).map (· ++ "\n") := by
  induction events generalizing before with
  | nil => rfl
  | cons e rest ih =>
    have split : before ++ e :: rest = before ++ [e] ++ rest := by simp
    rw [split] at h
    have level : levelAfter (finalLevel 0 before) e = finalLevel 0 (before ++ [e]) := by
      simp [finalLevel]
    obtain ⟨middle, he, -⟩ := Option.bind_eq_some_iff.mp (opened_append .. ▸ h)
    rw [eventLines, indentedLines, List.map_cons, writeEvent_eq he, level, ih h]

theorem mem_indentedLines {line : String} (h : line ∈ indentedLines marker before events) :
    ∃ said, ∃ e ∈ events, line = indentedLine marker said e := by
  induction events generalizing before with
  | nil => cases h
  | cons e rest ih =>
    rcases List.mem_cons.mp h with rfl | h
    · exact ⟨before, e, List.mem_cons_self, rfl⟩
    · obtain ⟨said, e', he, rfl⟩ := ih h
      exact ⟨said, e', List.mem_cons_of_mem _ he, rfl⟩

/-- An entry that quotes tokens of one line is written on one line. -/
theorem oneLine_indentedLine (hm : OneLine marker) (he : e.From fun t => OneLine t.value) :
    OneLine (indentedLine marker before e) := by
  have tabs (n : Nat) : OneLine (String.ofList (List.replicate n '\t')) := by
    simp [OneLine]
  obtain ⟨tag, text⟩ := he.oneLine
  simp only [indentedLine, oneLine_append]
  exact ⟨⟨⟨⟨tabs _, hm⟩, tag⟩, by decide⟩, text⟩

/-! ## Analyses -/

/-- An analysis that writes its trace, beside the analysis that records it: both come to the same
end, the text is the recorded trace, and the indentation follows the open productions. -/
structure Written (marker : String) (recorded : Analysis Unit)
    (written : Analysis Unit (IndentedSink marker)) : Prop where
  outcome_eq : written.outcome = recorded.outcome
  lookahead_eq : written.lookahead = recorded.lookahead
  scopes_eq : written.scopes = recorded.scopes
  chain_eq : written.chain = recorded.chain
  notices_eq : written.notices = recorded.notices
  told : written.events = tellAll TraceSink.start recorded.events.toList
  text_eq : written.events.text =
    String.join ((indentedLines marker [] recorded.events.toList).map (· ++ "\n"))
  level_eq : ∀ before, before <+: recorded.events.toList →
    (tellAll TraceSink.start before : IndentedSink marker).level = (openProductions before).length
  level_end : written.events.level = 0
  aligned : ∀ before p after, recorded.events.toList = before ++ .finish p :: after →
    ∃ outer inside, before = outer ++ .begin p :: inside ∧ Paired inside ∧
      surrounding before (.finish p) = surrounding outer (.begin p)

/-- The indentation that the sink comes to is the number of open productions. -/
theorem level_tellAll (h : opened [] before = some left) :
    (tellAll TraceSink.start before : IndentedSink marker).level =
      (openProductions before).length := by
  rw [tellAll_indented]
  exact finalLevel_eq h

/-- An end stands as far in as the begin that it belongs to. -/
theorem exists_aligned_begin {p : String} {after : List Event}
    (h : Paired (before ++ .finish p :: after)) :
    ∃ outer inside, before = outer ++ .begin p :: inside ∧ Paired inside ∧
      surrounding before (.finish p) = surrounding outer (.begin p) := by
  have whole := h []
  rw [opened_append, Option.bind_eq_some_iff] at whole
  obtain ⟨stack, hb, rest⟩ := whole
  rw [opened_cons, Option.bind_eq_some_iff] at rest
  obtain ⟨left, he, -⟩ := rest
  obtain rfl := openStep_finish_eq_some he
  obtain ⟨outer, inside, rfl, ho, paired⟩ := exists_begin_of_opened hb
  refine ⟨outer, inside, rfl, paired, ?_⟩
  -- Behind the end, just the productions are open that were open before the begin.
  have closed : opened [] (outer ++ .begin p :: inside ++ [.finish p]) = some left := by
    rw [opened_append, hb, Option.bind_some, opened_cons, he]
    rfl
  rw [surrounding, surrounding, openProductions, openProductions, opened_eq closed, opened_eq ho]
  exact fun q h => Event.noConfusion h

/-- Every analysis writes the trace that it records: it comes to the same end, and the text has the
line of each entry in turn, with a tab for each production around it. The indentation is the number
of open productions all along, and none at the end. The trace of a source has one line for each
entry. -/
theorem writes_recorded_trace (limit : Nat) (stream : TokenStream) (marker : String) :
    Written marker (analyseWithin limit stream)
      (analyseWithin limit stream (IndentedSink marker)) ∧
    ∀ source, stream = .ofSource source → OneLine marker →
      linesOf (analyseWithin limit stream (IndentedSink marker)).events.text =
        indentedLines marker [] (analyseWithin limit stream).events.toList ++ [""] := by
  have paired := paired_trace limit stream
  have same := analyseWithin_eq_tellAll (σ := IndentedSink marker) limit stream
  have told := congrArg Analysis.events same
  have text_eq : (analyseWithin limit stream (IndentedSink marker)).events.text =
      String.join ((indentedLines marker []
        (analyseWithin limit stream).events.toList).map (· ++ "\n")) := by
    have lines : eventLines marker (finalLevel 0 []) (analyseWithin limit stream).events.toList =
        (indentedLines marker [] (analyseWithin limit stream).events.toList).map (· ++ "\n") :=
      eventLines_eq_indentedLines (paired [])
    rw [told, ← lines]
    exact congrArg IndentedSink.text (tellAll_indented _ _) |>.trans (String.empty_append ..)
  refine ⟨⟨?_, ?_, ?_, ?_, ?_, told, text_eq, fun before hp => ?_, ?_, ?_⟩, ?_⟩
  · exact congrArg Analysis.outcome same
  · exact congrArg Analysis.lookahead same
  · exact congrArg Analysis.scopes same
  · exact congrArg Analysis.chain same
  · exact congrArg Analysis.notices same
  · obtain ⟨rest, split⟩ := hp
    have whole := paired []
    rw [← split, opened_append, Option.bind_eq_some_iff] at whole
    obtain ⟨left, hb, -⟩ := whole
    exact level_tellAll hb
  · rw [told]
    exact (level_tellAll (paired [])).trans (by rw [length_openProductions (paired [])]; rfl)
  · intro before p after split
    exact exists_aligned_begin (split ▸ paired)
  · rintro source rfl hm
    rw [text_eq]
    refine linesOf_join fun line hl => ?_
    obtain ⟨said, e, he, rfl⟩ := mem_indentedLines hl
    exact oneLine_indentedLine hm (from_of_mem_trace (hands_ofSource source) e he)

theorem writes_recorded_trace_undeclaredCondition :
    (analyse undeclaredCondition).events.toList =
      (analyse undeclaredCondition).events.toList.take 9 ++
        .finish "Condition" :: (analyse undeclaredCondition).events.toList.drop 10 ∧
    (∃ outer inside,
      (analyse undeclaredCondition).events.toList.take 9 = outer ++ .begin "Condition" :: inside ∧
      Paired inside ∧
      surrounding ((analyse undeclaredCondition).events.toList.take 9) (.finish "Condition") =
        surrounding outer (.begin "Condition")) ∧
    (tellAll TraceSink.start ((analyse undeclaredCondition).events.toList.take 9) :
      IndentedSink "rgg").level =
        (openProductions ((analyse undeclaredCondition).events.toList.take 9)).length ∧
    OneLine "rgg" ∧
    linesOf (analyseWithin 9 (.ofSource "begin if x") (IndentedSink "rgg")).events.text =
      indentedLines "rgg" [] (analyseWithin 9 (.ofSource "begin if x")).events.toList ++ [""] := by
  have written := (writes_recorded_trace (3 * 3 + 1) undeclaredCondition "rgg").1
  have split : (analyse undeclaredCondition).events.toList =
      (analyse undeclaredCondition).events.toList.take 9 ++
        .finish "Condition" :: (analyse undeclaredCondition).events.toList.drop 10 := by
    decide +kernel
  exact ⟨split, written.aligned _ _ _ split, written.level_eq _ (List.take_prefix _ _), by decide,
    (writes_recorded_trace 9 (.ofSource "begin if x") "rgg").2 _ rfl (by decide)⟩

example : (analyse undeclaredCondition (IndentedSink "")).events.text =
    "BEGIN StatementPart\n\tTOKEN begin on line 1\n\tBEGIN StatementList\n" ++
    "\t\tBEGIN Statement\n\t\t\tBEGIN IfStatement\n\t\t\t\tTOKEN if on line 1\n" ++
    "\t\t\t\tBEGIN Condition\n\t\t\t\t\tERROR undeclared variable 'x' on line 1\n" ++
    "\t\t\t\t\tERROR error caught in Condition on line 1\n\t\t\t\tEND Condition\n" ++
    "\t\t\t\tERROR error caught in IfStatement on line 1\n\t\t\tEND IfStatement\n" ++
    "\t\t\tERROR error caught in Statement on line 1\n\t\tEND Statement\n" ++
    "\t\tERROR error caught in StatementList on line 1\n\tEND StatementList\n" ++
    "\tERROR error caught in StatementPart on line 1\nEND StatementPart\n" := by
  decide +kernel

end BlockLang
