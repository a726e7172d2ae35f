import BlockLang.Proofs.Grammar.SyntaxErrors
import BlockLang.Proofs.Run.Causality
import BlockLang.Proofs.Truncation.CutRuns
import BlockLang.Proofs.Truncation.Trailing

/-!
# Truncation and extension

No program begins with another. Where a program is cut, the analysis takes what is left of it and
refuses the end of the file: what was declared and checked up to there was so in the whole program
too. Where a token follows a program, the analysis is that of the program up to this token, which it
refuses.

## Main definitions

* `RanDry a u last f`: an analysis took the tokens `u` and refused the end of the file

## Main results

* `noMismatch_of_cut`: the analysis of a program that is cut does not stop for its types
* `accepted_and_lookahead_of_cut`: it takes all that is left of the program
* `ranDry_of_accepted`: a program that is cut is refused at the end of the file
* `truncation_and_extension`: what becomes of a program that is cut, and of one that is followed by
  a token
-/

namespace BlockLang

open Analyser

/-- The analysis took the tokens `u`, and then it told of a syntax error at the end of the file,
which passed through all productions that were open. -/
structure RanDry (a : Analysis Unit) (u : List Token) (last : Token) (f : Fault) : Prop where
  outcome_eq : a.outcome = .error (.fault f)
  root_kind : f.root.kind = .parse
  position_eq : f.root.position = last.position
  accepted_eq : accepted a.events.toList = u
  told : ∃ before, ToldOf a f before last last

variable {stream cut input : TokenStream} {u w rest : List Token} {eof last token first : Token}
  {limit : Nat} {f : Fault} {t : AnalyserState}

/-- The first deliveries of a stream whose tokens are known. -/
theorem front_eq_take {w : List Token} {last : Token} {n : Nat} (h : n ≤ w.length + 1)
    (delivers : stream.front (w.length + 1) = (w ++ [last]).map .ok) :
    stream.front n = ((w ++ [last]).take n).map .ok := by
  have front := List.prefix_iff_eq_take.mp (stream.front_isPrefix h)
  rw [front, delivers, TokenStream.length_front, List.map_take]

/-- The analysis of a program that is cut does not stop for its types. -/
theorem noMismatch_of_cut {first' : Token} {input' : TokenStream}
    (pulled : stream.pull = (.ok first, input))
    (run : program limit (.start first input) = .ok () t)
    (ends : last.type = .endOfFile) (delivers : stream.front u.length = u.map .ok)
    (cuts : cut.front (u.length + 1) = (u ++ [last]).map .ok)
    (pulled' : cut.pull = (.ok first', input')) :
    Ensures (program limit) (fun _ _ => True) (fun stop _ => stop.NoMismatch)
      (.start first' input') := by
  -- What stands behind the first production is refused as a token, not for its types.
  suffices part : Ensures (analyser limit .statementPart) (fun _ _ => True)
      (fun stop _ => stop.NoMismatch) (.start first' input') by
    refine ensures_bind.mpr (part.answer fun _ r _ => ?_)
    rw [ensures_require]
    split
    · trivial
    · exact noMismatch_of_parse (rfl : (Cause.trailing r.lookahead).kind = .parse)
  cases u with
  | nil =>
    -- Nothing is left of the program, and no production begins at the end of the file.
    rw [List.length_nil, TokenStream.front_succ, pulled'] at cuts
    have first_eq : first' = last := Except.ok.inj (List.cons.inj cuts).1
    exact (starves_analyser limit .statementPart _ (first_eq ▸ ends)).answer fun _ _ _ => trivial
  | cons x u =>
    rw [List.length_cons, TokenStream.front_succ, pulled, List.map_cons,
      List.cons.injEq] at delivers
    rw [List.length_cons, TokenStream.front_succ, pulled', List.cons_append, List.map_cons,
      List.cons.injEq] at cuts
    obtain rfl : first = x := Except.ok.inj delivers.1
    obtain rfl : first' = first := Except.ok.inj cuts.1
    -- The runs begin on one token, on streams the second of which is cut.
    have abreast : Abreast (.start first' input) (.start first' input') := by
      refine ⟨rfl, cutOf_of_front (n := u.length) ends ?_, .empty, Declarations.known_empty, rfl⟩
      exact cuts.2.trans (by rw [List.map_append, ← delivers.2]; rfl)
    have along := ((cutParts_analyser limit).plain .statementPart rfl).along _ _ abreast
    exact (along () t (program_eq_ok_iff.mp run).1).answer fun _ _ _ => trivial

/-- No program begins with another. -/
theorem outcome_ne_of_cut (proper : ∀ t ∈ w, t.type ≠ .endOfFile)
    (delivers : stream.front (w.length + 1) = (w ++ [eof]).map .ok)
    (accepted : (analyse stream).outcome = .ok ()) (split : u ++ token :: rest = w)
    (ends : last.type = .endOfFile) (cuts : cut.front (u.length + 1) = (u ++ [last]).map .ok) :
    (analyse cut).outcome ≠ .ok () := by
  intro ok
  subst split
  have more : stream.front (u.length + 1) = (u ++ [token]).map .ok := by
    rw [front_eq_take (by simp) delivers]
    simp [List.take_append]
  have trailed := trailed_of_accepted (fun t ht => proper t (List.mem_append_left _ ht)) ends cuts
    ok (proper token (by simp)) more
  rw [trailed.analysis_eq] at accepted
  cases accepted

/-- An analysis takes no more than the tokens before the end of the file. -/
theorem length_accepted_le_of_cut (ends : last.type = .endOfFile)
    (cuts : cut.front (u.length + 1) = (u ++ [last]).map .ok) (limit : Nat) :
    (accepted (analyseWithin limit cut).events.toList).length ≤ u.length :=
  length_accepted_le (by simpa using cuts) (fun _ ht => Except.ok.inj ht ▸ ends) limit

/-- Where nothing but tokens is delivered up to the end of the file, only a fault or the limit stops
an analysis. -/
theorem exists_fault_of_cut {e : Stop} (ends : last.type = .endOfFile)
    (cuts : cut.front (u.length + 1) = (u ++ [last]).map .ok)
    (stopped : (analyseWithin limit cut).outcome = .error e) (deep : e ≠ .tooDeep) :
    ∃ first input f t, cut.pull = (.ok first, input) ∧
      program limit (.start first input) = .error (.fault f) t ∧
      analyseWithin limit cut = .ofState (.error (.fault f)) t := by
  have few := length_accepted_le_of_cut ends cuts limit
  have tokens {n : Nat} (h : n ≤ u.length + 1) (error : LexicalError) :
      .error error ∉ cut.front n := by
    intro mem
    rw [front_eq_take h cuts] at mem
    obtain ⟨t, -, ht⟩ := List.mem_map.mp mem
    cases ht
  rcases hp : cut.pull with ⟨error | first, input⟩
  · exact absurd (by simp [TokenStream.front_succ, hp]) (tokens (Nat.le_add_left 1 _) error)
  · rw [analyseWithin_of_pull hp] at stopped few ⊢
    obtain ⟨t, run⟩ := outcome_ofResult_eq_error_iff.mp stopped
    cases e with
    | fault f => exact ⟨first, input, f, t, rfl, run, by rw [run]; rfl⟩
    | tooDeep => exact absurd rfl deep
    | lexical error =>
      -- The error would be among what is delivered up to the end of the file.
      rw [run] at few
      have broken := Breaks.front_eq (((composed_program limit).steady _).of_error run) hp
      exact absurd (broken ▸ by simp) (tokens (Nat.succ_le_succ few) error)

/-- The run of a program that is cut takes all that is left of it: had it stopped before the end of
the file, so would that of the whole program. -/
theorem accepted_and_lookahead_of_cut
    (delivers : stream.front (w.length + 1) = (w ++ [eof]).map .ok)
    (whole : (analyseWithin limit stream).outcome = .ok ()) (split : u ++ token :: rest = w)
    (ends : last.type = .endOfFile) (cuts : cut.front (u.length + 1) = (u ++ [last]).map .ok)
    (pulled : cut.pull = (.ok first, input))
    (run : program limit (.start first input) = .error (.fault f) t)
    (left : analyseWithin limit cut = .ofState (.error (.fault f)) t) :
    t.accepted = u ∧ t.lookahead = last := by
  subst split
  have few := length_accepted_le_of_cut ends cuts limit
  have asks := asks_accepted limit cut
  rw [left] at few asks
  have length_eq : t.accepted.length = u.length := by
    refine Nat.le_antisymm few (Nat.le_of_not_lt fun less => ?_)
    have agree : stream.front (t.accepted.length + 1) = cut.front (t.accepted.length + 1) := by
      rw [front_eq_take (by simp; omega) delivers, front_eq_take (by omega) cuts]
      simp [List.take_append, Nat.sub_eq_zero_of_le less]
    rw [(asks stream agree).1, left] at whole
    cases whole
  have taken := Reaches.front_eq (((composed_program limit).steady _).of_error run) pulled
  rw [length_eq, cuts, List.map_append] at taken
  obtain ⟨tokens, here⟩ := List.append_inj taken (by simp [length_eq])
  exact ⟨List.map_injective_iff.mpr (fun _ _ => Except.ok.inj) tokens.symm,
    (Except.ok.inj (List.cons.inj here).1).symm⟩

/-- A run with a fault that comes to the end of the file, but does not stop for its types, stops with
a syntax error. -/
theorem ranDry_of_run (run : program limit (.start first input) = .error (.fault f) t)
    (dry : t.Dry) (spared : (Stop.fault f).NoMismatch) :
    RanDry (.ofState (.error (.fault f)) t) t.accepted t.lookahead f := by
  obtain ⟨before, token, cause, productions, unwinds, stands, trailing⟩ := exists_unwinding run
  have root_eq := unwinds.root_eq
  have kind_eq : f.root.kind = cause.kind := congrArg FaultLink.kind root_eq
  have root_kind : f.root.kind = .parse := by
    cases cause with
    | mismatch m => exact absurd (congrArg some kind_eq) spared
    | undeclared name =>
      -- What is not declared is a name, but no program holds the end of the file.
      obtain ⟨rest, program⟩ := exists_isProgram_lookahead run kind_eq
      exact absurd dry (program.type_ne_endOfFile _ (by simp))
    | _ => exact kind_eq
  obtain rfl : token = t.lookahead := stands.resolve_left fun mismatch => by
    cases mismatch.symm.trans (kind_eq.symm.trans root_kind)
  exact ⟨rfl, root_kind, congrArg FaultLink.position root_eq, rfl, before, unwinds.toldOf trailing⟩

/-- A program that is cut is refused at the end of the file. -/
theorem ranDry_of_accepted (proper : ∀ t ∈ w, t.type ≠ .endOfFile)
    (delivers : stream.front (w.length + 1) = (w ++ [eof]).map .ok)
    (accepted : (analyse stream).outcome = .ok ()) (split : u ++ token :: rest = w)
    (ends : last.type = .endOfFile) (cuts : cut.front (u.length + 1) = (u ++ [last]).map .ok) :
    ∃ f, RanDry (analyse cut) u last f := by
  have refused := outcome_ne_of_cut proper delivers accepted split ends cuts
  obtain ⟨limit, whole, same⟩ := exists_common_limit stream cut
  cases outcome : (analyse cut).outcome with
  | ok a => exact absurd outcome refused
  | error e =>
    have deep : e ≠ .tooDeep := by
      rintro rfl
      rw [analyse_eq_analyseFreely] at outcome
      exact outcome_analyseFreely_ne cut outcome
    rw [← whole] at accepted
    rw [← same] at outcome ⊢
    obtain ⟨_, _, _, pulled, whole_run, -⟩ := exists_run_of_ok accepted
    obtain ⟨first, input, f, t, pulled', run, left⟩ := exists_fault_of_cut ends cuts outcome deep
    obtain ⟨rfl, rfl⟩ :=
      accepted_and_lookahead_of_cut delivers accepted split ends cuts pulled' run left
    have front_u : stream.front t.accepted.length = t.accepted.map .ok := by
      subst split
      rw [front_eq_take (by simp; omega) delivers]
      simp
    have spared := (noMismatch_of_cut pulled whole_run ends front_u cuts pulled').of_error run
    exact ⟨f, left ▸ ranDry_of_run run ends spared⟩

/-- No program begins with another. A program that is cut, at whatever token, is refused at the end
of the file, with a syntax error. A program that is followed by a token is refused at this token,
and up to there the analysis is that of the program. -/
theorem truncation_and_extension (proper : ∀ t ∈ w, t.type ≠ .endOfFile)
    (ends : eof.type = .endOfFile)
    (delivers : stream.front (w.length + 1) = (w ++ [eof]).map .ok)
    (accepted : (analyse stream).outcome = .ok ()) :
    (∀ (u v : List Token) (last : Token) (cut : TokenStream), u ++ v = w → v ≠ [] →
      last.type = .endOfFile → cut.front (u.length + 1) = (u ++ [last]).map .ok →
      ∃ f, RanDry (analyse cut) u last f) ∧
    (∀ (token : Token) (longer : TokenStream), token.type ≠ .endOfFile →
      longer.front (w.length + 1) = (w ++ [token]).map .ok →
      ∃ f, Trailed (analyse longer) (analyse stream) token f) :=
  ⟨fun u v _ _ split more ends' cuts => by
      obtain ⟨token, rest, rfl⟩ := List.exists_cons_of_ne_nil more
      exact ranDry_of_accepted proper delivers accepted split ends' cuts,
    fun _ _ trails more =>
      ⟨_, trailed_of_accepted proper ends delivers accepted trails more⟩⟩

/-- A program that joins two strings. -/
def joining : List Token :=
  [⟨.beginKeyword, "begin", ⟨1, 1⟩⟩, ⟨.identifier, "s", ⟨1, 7⟩⟩, ⟨.colonEqual, ":=", ⟨1, 9⟩⟩,
    ⟨.stringLiteral, "a", ⟨1, 12⟩⟩, ⟨.semicolon, ";", ⟨1, 15⟩⟩, ⟨.identifier, "t", ⟨1, 17⟩⟩,
    ⟨.colonEqual, ":=", ⟨1, 19⟩⟩, ⟨.identifier, "s", ⟨1, 22⟩⟩, ⟨.plus, "+", ⟨1, 24⟩⟩,
    ⟨.identifier, "s", ⟨1, 26⟩⟩, ⟨.endKeyword, "end", ⟨1, 28⟩⟩]

/-- It is cut behind the operator, and it is followed by a semicolon. -/
theorem truncation_and_extension_joining :
    let stream := TokenStream.ofList (joining.map .ok)
    let cut := TokenStream.ofList ((joining.take 9).map .ok)
    let semicolon : Token := ⟨.semicolon, ";", ⟨1, 31⟩⟩
    let longer := TokenStream.ofList ((joining ++ [semicolon]).map .ok)
    (∀ t ∈ joining, t.type ≠ .endOfFile) ∧ stream.endToken.type = .endOfFile ∧
      stream.front (joining.length + 1) = (joining ++ [stream.endToken]).map .ok ∧
      (analyse stream).outcome = .ok () ∧
      (∃ f, RanDry (analyse cut) (joining.take 9) cut.endToken f) ∧
      ∃ f, Trailed (analyse longer) (analyse stream) semicolon f := by
  intro stream cut semicolon longer
  have proper : ∀ t ∈ joining, t.type ≠ .endOfFile := by decide
  have accepted : (analyse stream).outcome = .ok () := by decide +kernel
  have delivers : stream.front (joining.length + 1) = (joining ++ [stream.endToken]).map .ok := rfl
  obtain ⟨short, long⟩ := truncation_and_extension proper rfl delivers accepted
  exact ⟨proper, rfl, delivers, accepted,
    short (joining.take 9) (joining.drop 9) cut.endToken cut (by decide) (by decide) rfl rfl,
    long semicolon longer (by decide) rfl⟩

end BlockLang
