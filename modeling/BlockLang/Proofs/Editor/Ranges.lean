import BlockLang.Proofs.Editor.Characters
import BlockLang.Proofs.Editor.Hovering

/-!
# Ranges of diagnostics

The diagnostic about a fault begins where the token stands that the fault was told of at, and it is
taken to be as wide as the text of the token, or one character wide where there is no text. So it
covers the token, unless this is a string constant: its text stands without its quotes, and the
diagnostic ends before them.

## Main definitions

* `Covers source t range`: the stretch is that of the token
* `PointsOut source tokens d f t range`: the diagnostic of a document points out the token of a fault

## Main results

* `tokenOfRoot?_eq`: the token of the first cause is found in the trace
* `diagnostic_covers_token_iff`: the diagnostic of a fault covers its token, unless this is a string
  constant
-/

namespace BlockLang

open Editor

variable {limit : Nat} {source : String} {tokens : List Token} {before after : List Event}
  {t : Token} {f : Fault} {uri : String} {d : DocumentAnalysis}

/-! ## Tokens of faults -/

/-- The tokens that the stream of a source hands out are those of the source. -/
theorem hands_of_lexed (lexed : tokenize source = .ok tokens) :
    (TokenStream.ofSource source).Hands (· ∈ tokens) := by
  constructor
  · intro t ht
    have given : .ok t ∈ tokens.map (Except.ok (ε := LexicalError)) :=
      deliveriesOf_of_tokenize lexed ▸ ht
    simpa using given
  · -- Behind its tokens the stream goes on with the last of them.
    obtain ⟨pieces, tail, tiling⟩ := exists_tiling_of_tokenize lexed
    rw [tiling.tokens_eq]
    apply List.mem_append_right
    rw [TokenStream.endToken, endPosition_of_lexed lexed]
    exact List.mem_singleton_self _

/-- A token of a source that is not the end of the file has characters. -/
theorem written_ne_nil (lexed : tokenize source = .ok tokens) (ht : t ∈ tokens)
    (proper : t.type ≠ .endOfFile) : t.written ≠ [] := by
  obtain ⟨front, cs, -, delivered⟩ := exists_deliveredAt_of_mem lexed ht
  cases delivered with
  | token before => exact List.ne_nil_of_length_pos before.length_pos
  | endOfFile => exact absurd rfl proper

/-- The end of the file of a source has no text. -/
theorem value_of_endOfFile (lexed : tokenize source = .ok tokens) (ht : t ∈ tokens)
    (last : t.type = .endOfFile) : t.value = "" := by
  obtain ⟨front, cs, -, delivered⟩ := exists_deliveredAt_of_mem lexed ht
  cases delivered with
  | token before => exact absurd last before.type_ne_endOfFile
  | endOfFile => rfl

namespace Editor

/-- The token of the first cause is that of the first error that the trace tells. -/
theorem tokenOfRoot?_eq {root : FaultLink} (errorFree : ErrorFree before) :
    tokenOfRoot? (before ++ .error t (.ofLink root) :: after) root = some t := by
  rw [tokenOfRoot?, List.findSome?_append, List.findSome?_eq_none_iff.mpr, Option.none_or,
    List.findSome?_cons]
  · simp
  · intro e he
    cases e with
    | error _ _ => exact absurd rfl (errorFree _ he)
    | begin _ | finish _ | terminal _ | add _ | remove _ => rfl

/-! ## Stretches of tokens -/

/-- The stretch begins and ends with what the token is written in, on one line of the source. -/
structure Covers (source : String) (t : Token) (range : EditorRange) : Prop where
  start_eq : range.start = t.placeAt 0
  stop_eq : range.stop = t.placeAt t.written.length
  text_eq : textOn? source range = some (String.ofList t.written)

/-- The stretch of a diagnostic about `length` characters from the place of a token on. -/
theorem range_makeDiagnostic (lexed : tokenize source = .ok tokens) (ht : t ∈ tokens)
    (message : String) (length : Nat) (code : Option String) :
    (makeDiagnostic t.position.line t.position.col message length code).range =
      ⟨t.placeAt 0, t.placeAt (max length 1)⟩ := by
  obtain ⟨front, rest, -, placed, -⟩ := exists_written_of_mem lexed ht
  have first : (1 : Int) ≤ t.position.line ∧ (1 : Int) ≤ t.position.col := by
    simp only [placed, Position.behind]
    omega
  simp only [makeDiagnostic, stretch, toEditor, Token.placeAt, EditorRange.mk.injEq,
    EditorPosition.mk.injEq]
  omega

/-- The stretch of what a token is written in covers the token. -/
theorem covers_of_written (lexed : tokenize source = .ok tokens) (ht : t ∈ tokens) :
    Covers source t ⟨t.placeAt 0, t.placeAt t.written.length⟩ := by
  obtain ⟨front, rest, text, placed, oneLine⟩ := exists_written_of_mem lexed ht
  have range : (⟨t.placeAt 0, t.placeAt t.written.length⟩ : EditorRange) =
      nameRange (Position.behind front).line (Position.behind front).col
        (String.ofList t.written) := by
    rw [nameRange, toEditor_behind, stretch]
    simp only [Token.placeAt, placed, Position.behind, EditorRange.mk.injEq,
      EditorPosition.mk.injEq, String.length_ofList]
    omega
  refine ⟨rfl, rfl, ?_⟩
  rw [range]
  exact textOn?_nameRange (by rwa [String.toList_ofList]) (by rwa [String.toList_ofList])

/-! ## Diagnostics of faults -/

/-- The diagnostic of a fault reaches as far as the token of its first cause has text, but one
character at least. -/
theorem range_faultDiagnostic {events : List Event} (lexed : tokenize source = .ok tokens)
    (ht : t ∈ tokens) (found : tokenOfRoot? events f.root = some t)
    (placed : f.root.position = t.position) :
    (faultDiagnostic events f).range = ⟨t.placeAt 0, t.placeAt (max t.value.length 1)⟩ := by
  simp only [faultDiagnostic, found, placed, Option.map_some, Option.getD_some]
  exact range_makeDiagnostic lexed ht _ _ _

/-- A stretch as wide as the text of a token covers the token, unless this is a string constant. -/
theorem covers_text_iff (lexed : tokenize source = .ok tokens) (ht : t ∈ tokens)
    (proper : t.type ≠ .endOfFile) :
    Covers source t ⟨t.placeAt 0, t.placeAt (max t.value.length 1)⟩ ↔
      t.type ≠ .stringLiteral := by
  have length := t.length_written
  constructor
  · -- The stretch would have to end where the token does, behind the closing quote.
    intro covered string
    have same := Token.placeAt_inj covered.stop_eq
    rw [if_pos string] at length
    omega
  · intro string
    have nonempty := List.length_pos_iff.mpr (written_ne_nil lexed ht proper)
    rw [if_neg string, Nat.add_zero] at length
    rw [← length, Nat.max_eq_left nonempty]
    exact covers_of_written lexed ht

/-- The diagnostic of a document points out the token of a fault: the trace tells the first cause of
the fault at this token, and the one diagnostic of the document begins with it and stays on its
line. It covers the token unless this is a string constant, where it ends two characters early, or
one if the constant has no text. At the end of the file it is one character wide. -/
structure PointsOut (source : String) (tokens : List Token) (d : DocumentAnalysis) (f : Fault)
    (t : Token) (range : EditorRange) : Prop where
  mem : t ∈ tokens
  told : .error t (.ofLink f.root) ∈ d.events
  found : tokenOfRoot? d.events f.root = some t
  position_eq : f.root.position = t.position
  shown : ∃ message code, d.diagnostics = [⟨range, message, code⟩]
  start_eq : range.start = t.placeAt 0
  oneLine : range.stop.line = range.start.line
  covers_iff : t.type ≠ .endOfFile → (Covers source t range ↔ t.type ≠ .stringLiteral)
  string : t.type = .stringLiteral → range.stop = t.placeAt (max (t.written.length - 2) 1)
  endOfFile : t.type = .endOfFile → range.stop = t.placeAt 1

/-- The diagnostic about a fault covers the token of its first cause, unless this is a string
constant. -/
theorem diagnostic_covers_token_iff (lexed : tokenize source = .ok tokens)
    (analysed : analyseDocument limit uri source = .ok d)
    (faulty : (analyseWithin limit (.ofSource source)).outcome = .error (.fault f)) :
    d.fault = some f ∧ ∃ t range, PointsOut source tokens d f t range := by
  -- The first error of the trace is the first cause, at a token that was handed out.
  obtain ⟨before, t, after, told, errorFree, placed⟩ := exists_root_event faulty
  have handed : Event.From (· ∈ tokens) (.error t (.ofLink f.root)) :=
    from_of_mem_trace (hands_of_lexed lexed) _ (by rw [told]; simp)
  have ht : t ∈ tokens := handed.1
  have events := (tokens_and_events_of_lexed lexed analysed).2
  obtain rfl := eq_analyseText_of_ok analysed
  have found : tokenOfRoot? (analyseText limit uri source).events f.root = some t := by
    rw [events, told]
    exact tokenOfRoot?_eq errorFree
  have range := range_faultDiagnostic lexed ht found placed
  have shown : (analyseText limit uri source).diagnostics =
      [faultDiagnostic (analyseText limit uri source).events f] := by
    rw [diagnostics_analyseText limit uri lexed, faulty, events]
    rfl
  refine ⟨(faulty_analyseText uri lexed faulty).fault_eq, t,
    ⟨t.placeAt 0, t.placeAt (max t.value.length 1)⟩, ?_⟩
  constructor
  case mem => exact ht
  case told =>
    rw [events, told]
    simp
  case found => exact found
  case position_eq => exact placed
  case shown => exact ⟨_, _, by rw [shown, ← range]⟩
  case start_eq => rfl
  case oneLine => rfl
  case covers_iff => exact covers_text_iff lexed ht
  case string =>
    intro string
    rw [t.length_written, if_pos string, Nat.add_sub_cancel]
  case endOfFile =>
    intro last
    rw [value_of_endOfFile lexed ht last]
    rfl

/-- A sum of a number and a string. -/
def mixedSum : String := "begin x := 1 + \"ab\" end"

/-- The document of the sum. -/
def mixedDocument : DocumentAnalysis :=
  analyseText depthLimit "file:///tmp/sample.rgg" mixedSum

/-- The string of the sum. -/
def mixedOperand : Token := ⟨.stringLiteral, "ab", ⟨1, 16⟩⟩

/-- The tokens of the sum. -/
def mixedTokens : List Token :=
  [⟨.beginKeyword, "begin", ⟨1, 1⟩⟩, ⟨.identifier, "x", ⟨1, 7⟩⟩, ⟨.colonEqual, ":=", ⟨1, 9⟩⟩,
    ⟨.numberLiteral, "1", ⟨1, 12⟩⟩, ⟨.plus, "+", ⟨1, 14⟩⟩, mixedOperand,
    ⟨.endKeyword, "end", ⟨1, 21⟩⟩, ⟨.endOfFile, "", ⟨1, 24⟩⟩]

/-- What the analysis says about the sum, at the string. -/
def mixedFault : Fault :=
  ⟨passageLink "StatementPart" mixedOperand,
    ["StatementList", "Statement", "AssignmentStatement", "Expression", "Expression"].map
      (passageLink · mixedOperand) ++
    [⟨.parse, "invalid token: stringConstant 'ab'", ⟨1, 16⟩⟩]⟩

theorem diagnostic_covers_token_iff_mixedSum :
    tokenize mixedSum = .ok mixedTokens ∧
      analyseDocument depthLimit "file:///tmp/sample.rgg" mixedSum = .ok mixedDocument ∧
      (analyseWithin depthLimit (.ofSource mixedSum)).outcome = .error (.fault mixedFault) ∧
      mixedDocument.fault = some mixedFault ∧
      ∃ t range, PointsOut mixedSum mixedTokens mixedDocument mixedFault t range := by
  have lexed : tokenize mixedSum = .ok mixedTokens := by decide +kernel
  have address : uriPath "file:///tmp/sample.rgg" = .ok "/tmp/sample.rgg" := by decide +kernel
  have analysed : analyseDocument depthLimit "file:///tmp/sample.rgg" mixedSum =
      .ok mixedDocument :=
    analyseDocument_of_uriPath address
  have faulty : (analyseWithin depthLimit (.ofSource mixedSum)).outcome =
      .error (.fault mixedFault) := by
    decide +kernel
  exact ⟨lexed, analysed, faulty, diagnostic_covers_token_iff lexed analysed faulty⟩

/-- The string is written in four characters, and the diagnostic about it covers two. -/
theorem diagnostic_short_of_constant :
    tokenize mixedSum = .ok mixedTokens ∧
      tokenOfRoot? mixedDocument.events mixedFault.root = some mixedOperand ∧
      mixedDocument.fault = some mixedFault ∧
      mixedOperand.written = "\"ab\"".toList ∧
      mixedDocument.diagnostics.map (·.range) = [⟨⟨0, 15⟩, ⟨0, 17⟩⟩] ∧
      ¬Covers mixedSum mixedOperand ⟨⟨0, 15⟩, ⟨0, 17⟩⟩ := by
  refine ⟨by decide +kernel, by decide +kernel, by decide +kernel, rfl, by decide +kernel, ?_⟩
  intro covered
  exact absurd covered.stop_eq (by decide)

end Editor

end BlockLang
