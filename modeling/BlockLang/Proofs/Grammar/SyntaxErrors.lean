import BlockLang.Proofs.Fault.Chain
import BlockLang.Proofs.Grammar.ViablePrefix

/-!
# Syntax errors

A syntax error stands at the first token that cannot be part of any program: the tokens before it
can be completed to a program, and with it they cannot.

## Main definitions

* `FirstError stream f token`: the fault `f` stands at the first token of `stream` that cannot be
  part of any program

## Main results

* `exists_isProgram`, `exists_isProgram_lookahead`: where a run stopped, a program was within reach
* `syntaxError_at_first_unviable_token`: a syntax error stands there
-/

namespace BlockLang

open Production Analyser

/-- Where a run of a program stopped, a program with a word of `K` after it was within reach. -/
theorem viable_program {K : Language TokenType} {limit : Nat} {first : Token}
    {input : TokenStream} {f : Fault} {t : AnalyserState} (possible : K.Possible)
    (hK : ∀ u, u ≠ .endOfFile → ¬K.Begins u)
    (h : program limit (.start first input) = .error (.fault f) t) :
    Viable (statementPart.language * K) (.fault f) t := by
  have awaits : Awaits (statementPart.language * K) (.start first input)
      (statementPart.language * K) := .start (by simp [possible]) (by simp)
  exact (leads_program limit hK _ awaits).of_error h

/-- A word that completes the types of some tokens is that of tokens that complete them. -/
theorem exists_isProgram_append {w : List Token} {v : List TokenType}
    (h : types w ++ v ∈ statementPart.language) : ∃ rest, IsProgram (w ++ rest) := by
  refine ⟨v.map fun u => ⟨u, "", Position.start⟩, isProgram_iff.mpr ?_⟩
  simpa [types, Function.comp_def] using h

/-- Where a run of a program stopped, a program was within reach. -/
theorem viable_alone {limit : Nat} {first : Token} {input : TokenStream} {f : Fault}
    {t : AnalyserState} (h : program limit (.start first input) = .error (.fault f) t) :
    Viable statementPart.language (.fault f) t := by
  -- Nothing is asked of what follows the program.
  have none_begins (u : TokenType) : ¬(1 : Language TokenType).Begins u := by
    rintro ⟨v, hv⟩
    cases hv
  have viable := viable_program Language.possible_one (fun u _ => none_begins u) h
  rwa [mul_one] at viable

/-- The accepted tokens can be completed where a run of a program stopped. -/
theorem exists_isProgram {limit : Nat} {first : Token} {input : TokenStream} {f : Fault}
    {t : AnalyserState} (h : program limit (.start first input) = .error (.fault f) t) :
    ∃ rest, IsProgram (t.accepted ++ rest) := by
  obtain ⟨⟨v, hv⟩, -⟩ := viable_alone h
  exact exists_isProgram_append hv

/-- They can be completed with the lookahead as the next of them, if it was not declared. -/
theorem exists_isProgram_lookahead {limit : Nat} {first : Token} {input : TokenStream} {f : Fault}
    {t : AnalyserState} (h : program limit (.start first input) = .error (.fault f) t)
    (hf : f.root.kind = .undeclared) : ∃ rest, IsProgram (t.accepted ++ t.lookahead :: rest) := by
  obtain ⟨v, hv⟩ := (viable_alone h).2.2 hf
  have word : types (t.accepted ++ [t.lookahead]) ++ v ∈ statementPart.language := by
    simpa [types] using hv
  obtain ⟨rest, hr⟩ := exists_isProgram_append word
  exact ⟨rest, by simpa using hr⟩

/-- No program goes on with a token that was refused, and the end of the file is refused only where
no program ends. -/
theorem not_isProgram {limit : Nat} {first : Token} {input : TokenStream} {f : Fault}
    {t : AnalyserState} (h : program limit (.start first input) = .error (.fault f) t)
    (hf : f.root.kind = .parse) :
    (∀ rest, ¬IsProgram (t.accepted ++ t.lookahead :: rest)) ∧
      (t.lookahead.type = .endOfFile → ¬IsProgram t.accepted) := by
  -- With the end of the file as a last token, a program is complete just when that is awaited.
  have begins (u : TokenType) (hu : u ≠ .endOfFile) :
      ¬({[.endOfFile]} : Language TokenType).Begins u := by
    rintro ⟨v, hv⟩
    exact hu (List.cons.inj hv).1
  have refused := (viable_program (Language.possible_singleton _) begins h).2.1 hf
  have complete {w : List Token} (hw : IsProgram w) :
      types w ++ [.endOfFile] ∈ statementPart.language * {[.endOfFile]} :=
    Language.append_mem_mul (isProgram_iff.mp hw) rfl
  refine ⟨fun rest hr => ?_, fun hl hp => ?_⟩
  · exact refused (types rest ++ [.endOfFile]) (by simpa [types] using complete hr)
  · exact refused [] (by simpa [hl] using complete hp)

/-- The fault `f` stands at the first token of the stream that cannot be part of any program. -/
structure FirstError (stream : TokenStream) (f : Fault) (token : Token) : Prop where
  reported : ∃ before after, ErrorFree before ∧
    (analyse stream).events.toList = before ++ .error token (.ofLink f.root) :: after
  position_eq : f.root.position = token.position
  front_eq : stream.front ((accepted (analyse stream).events.toList).length + 1) =
    (accepted (analyse stream).events.toList ++ [token]).map .ok
  viable : ∃ rest, IsProgram (accepted (analyse stream).events.toList ++ rest)
  unviable : ∀ rest, ¬IsProgram (accepted (analyse stream).events.toList ++ token :: rest)
  incomplete : token.type = .endOfFile → ¬IsProgram (accepted (analyse stream).events.toList)

/-- A syntax error stands at the first token that cannot be part of any program. -/
theorem syntaxError_at_first_unviable_token {stream : TokenStream} {f : Fault}
    (h : (analyse stream).outcome = .error (.fault f)) (hf : f.root.kind = .parse) :
    ∃ token, FirstError stream f token := by
  obtain ⟨first, input, t, pulled, run, left⟩ := exists_run_of_fault h
  obtain ⟨before, token, cause, productions, unwinds, stands, trailing⟩ := exists_unwinding run
  have accepted_eq : accepted (analyse stream).events.toList = t.accepted := by
    rw [analyse, left]
    rfl
  have told : ToldOf (analyse stream) f before token t.lookahead := by
    rw [analyse, left]
    exact unwinds.toldOf trailing
  -- Only a mismatch may stand anywhere else than at the lookahead.
  obtain rfl : token = t.lookahead := by
    refine stands.resolve_left fun hc => ?_
    rw [unwinds.root_eq] at hf
    cases hc.symm.trans hf
  have reaches : Reaches (.start first input) t := ((composed_program _).steady _).of_error run
  obtain ⟨ts, passes, hts⟩ := reaches
  have taken : ts = t.accepted := by simpa using hts.symm
  have refused := not_isProgram run hf
  refine ⟨t.lookahead, ⟨before, _, told.errorFree, told.events_eq⟩, ?_, ?_, ?_, ?_, ?_⟩
  · rw [unwinds.root_eq]
    rfl
  · rw [accepted_eq, ← taken]
    exact passes.front pulled
  · rw [accepted_eq]
    exact exists_isProgram run
  · rw [accepted_eq]
    exact refused.1
  · rw [accepted_eq]
    exact refused.2

/-- A statement list that ends where a program has to go on. -/
def missingEnd : TokenStream :=
  .ofList ([⟨.beginKeyword, "begin", ⟨1, 1⟩⟩, ⟨.identifier, "x", ⟨1, 7⟩⟩,
    ⟨.colonEqual, ":=", ⟨1, 9⟩⟩, ⟨.numberLiteral, "1", ⟨1, 12⟩⟩,
    ⟨.semicolon, ";", ⟨1, 13⟩⟩].map .ok)

/-- What the analysis says about it. -/
def missingEndFault : Fault :=
  ⟨⟨.passage "StatementPart", "error caught in StatementPart", ⟨1, 13⟩⟩,
    [⟨.parse, "expected 'end', got end of file", ⟨1, 13⟩⟩]⟩

theorem syntaxError_missingEnd :
    (analyse missingEnd).outcome = .error (.fault missingEndFault) ∧
      missingEndFault.root.kind = .parse ∧ ∃ token, FirstError missingEnd missingEndFault token :=
  ⟨by rfl, by rfl, syntaxError_at_first_unviable_token (by rfl) (by rfl)⟩

end BlockLang
