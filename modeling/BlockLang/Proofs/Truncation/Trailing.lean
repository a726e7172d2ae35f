import BlockLang.Proofs.Depth.Bound

/-!
# Tokens behind a program

A program ends with a keyword, and the analyser knows that it is complete when it takes that
keyword, whatever comes next. So with another token in the place of the end of the file the analysis
is the same up to there, and then it refuses the token.

## Main definitions

* `Trailed a whole token`: the analysis `a` found a token behind the program of `whole`

## Main results

* `exists_answers_beside`: the first production does not look at what follows it
* `trailed_of_accepted`: a program with a token behind it is refused at this token
-/

namespace BlockLang

open Analyser

/-- The first production does not look at what follows it: with any stream that gives the same
tokens it does the same, and comes to what this stream gives next. -/
theorem exists_answers_beside {limit : Nat} {s t : AnalyserState}
    (h : analyser limit .statementPart s = .ok () t) :
    ∃ n, t.accepted.length = s.accepted.length + (n + 1) ∧
      ∀ input next rest, input.front n = s.input.front n →
        (input.after n).pull = (.ok next, rest) →
        analyser limit .statementPart { s with input := input } =
          .ok () { t with lookahead := next, input := rest } := by
  cases limit with
  | zero => cases h
  | succ limit =>
    -- The rule is what stands before the last keyword, and this keyword.
    let m : Analyser Unit := do
      expect .beginKeyword
      analyser limit .statementList
    have split : rule (analyser limit) .statementPart = m >>= fun _ => expect .endKeyword := by
      simp only [m, rule, bind_assoc]
    have composed : Composed m := .bind (.expect _) fun _ => composed_analyser limit .statementList
    obtain ⟨n, sees⟩ := composed.exists_sees (s.emit (.begin Call.statementPart.production.name))
    obtain ⟨u, body, rfl⟩ := within_eq_ok_iff.mp h
    rw [split] at body
    obtain ⟨a, r, hr, last⟩ := bind_eq_ok_iff.mp body
    obtain ⟨keyword, u', taken, done⟩ := bind_eq_ok_iff.mp last
    obtain ⟨isEnd, rfl, next, behind, pulled, rfl⟩ := accept_eq_ok_iff.mp taken
    cases done
    refine ⟨n, ?_, fun input next' rest agree pulled' => within_eq_ok_iff.mpr ?_⟩
    · have length := sees.length_taken
      rw [hr] at length
      simp only [endState, AnalyserState.accepted_emit, accepted_begin, List.append_nil] at length
      simp only [AnalyserState.accepted_emit, AnalyserState.accepted_advance, accepted_finish,
        List.append_nil, List.length_append, List.length_singleton, length, Nat.add_assoc]
    · refine ⟨{ r with input := input.after n }.advance next' rest, ?_, rfl⟩
      -- What stands before the keyword sees nothing of what the streams give later.
      have same := sees.refed_eq input agree
      rw [hr] at same
      rw [split]
      refine bind_eq_ok_iff.mpr ⟨a, _, same, bind_eq_ok_iff.mpr ⟨r.lookahead, _, ?_, rfl⟩⟩
      exact accept_eq_ok_iff.mpr ⟨isEnd, rfl, next', rest, pulled', rfl⟩

/-- What a stream delivers whose tokens are known up to some place. -/
theorem front_eq_and_pull_eq {stream : TokenStream} {w : List Token} {token : Token}
    (h : stream.front (w.length + 1) = (w ++ [token]).map .ok) :
    stream.front w.length = w.map .ok ∧ (stream.after w.length).pull.1 = .ok token := by
  rw [TokenStream.front_add, List.map_append] at h
  obtain ⟨before, here⟩ := List.append_inj h (by simp)
  exact ⟨before, (List.cons.inj here).1⟩

/-- Some limit stops the analysis of neither of two streams. -/
theorem exists_common_limit (stream other : TokenStream) : ∃ limit,
    analyseWithin limit stream = analyse stream ∧ analyseWithin limit other = analyse other :=
  ⟨3 * (stream.items.length + other.items.length) + 1, analyseWithin_eq_analyse (by omega),
    analyseWithin_eq_analyse (by omega)⟩

variable {stream longer : TokenStream} {w : List Token} {eof token : Token}

/-- An analysis without fault took the tokens up to the end of the file. -/
theorem accepted_eq_of_ok {first : Token} {input : TokenStream} {limit : Nat} {t : AnalyserState}
    (proper : ∀ t ∈ w, t.type ≠ .endOfFile) (ends : eof.type = .endOfFile)
    (delivers : stream.front (w.length + 1) = (w ++ [eof]).map .ok)
    (pulled : stream.pull = (.ok first, input))
    (run : program limit (.start first input) = .ok () t) : t.accepted = w := by
  obtain ⟨first', input', pulled', rest, passes⟩ := exists_passes_of_front delivers
  obtain ⟨hf, rfl⟩ := Prod.mk.inj (pulled.symm.trans pulled')
  cases hf
  obtain ⟨ts, passes', taken⟩ := ((composed_program limit).steady _).of_ok run
  obtain rfl : t.accepted = ts := by simpa using taken
  have affords := affords_program limit first input
  rw [run] at affords
  exact passes'.unique passes affords.proper proper (program_eq_ok_iff.mp run).2 ends

/-- The analysis of a program that is followed by a token: it is that of the program, but that it
ends with a syntax error at the token, which passed through no production. -/
structure Trailed (a whole : Analysis Unit) (token : Token) (f : Fault) : Prop where
  root_kind : f.root.kind = .parse
  position_eq : f.root.position = token.position
  productions_eq : f.productions = []
  analysis_eq : a = { whole with
    outcome := .error (.fault f)
    lookahead := some token
    events := whole.events.push (.error token f) }

/-- A program with a token behind it is refused at this token. -/
theorem trailed_of_accepted (proper : ∀ t ∈ w, t.type ≠ .endOfFile) (ends : eof.type = .endOfFile)
    (delivers : stream.front (w.length + 1) = (w ++ [eof]).map .ok)
    (accepted : (analyse stream).outcome = .ok ()) (trails : token.type ≠ .endOfFile)
    (more : longer.front (w.length + 1) = (w ++ [token]).map .ok) :
    Trailed (analyse longer) (analyse stream) token
      (.ofLink ((Cause.trailing token).link token)) := by
  refine ⟨rfl, rfl, rfl, ?_⟩
  obtain ⟨limit, same, same'⟩ := exists_common_limit stream longer
  rw [← same] at accepted
  obtain ⟨first, input, t, pulled, run, left⟩ := exists_run_of_ok accepted
  have taken := accepted_eq_of_ok proper ends delivers pulled run
  obtain ⟨n, length, beside⟩ := exists_answers_beside (program_eq_ok_iff.mp run).1
  have length_eq : w.length = 1 + n := by
    rw [taken, AnalyserState.accepted_start, List.length_nil] at length
    omega
  -- Up to the token the longer stream gives what the other one gives.
  obtain ⟨front_eq, -⟩ := front_eq_and_pull_eq delivers
  obtain ⟨front_eq', here⟩ := front_eq_and_pull_eq more
  obtain ⟨now, later⟩ :=
    TokenStream.front_eq_of_add (length_eq ▸ front_eq'.trans front_eq.symm)
  have pulled' := TokenStream.pull_eq_of_front now
  rw [pulled] at pulled'
  have behind : stream.after 1 = input := congrArg Prod.snd pulled
  rw [length_eq, TokenStream.after_add] at here
  have part := beside (longer.after 1) token _ (behind ▸ later) (Prod.ext here rfl)
  rw [← same', ← same, left, analyseWithin_of_pull pulled', program_apply]
  simp only [AnalyserState.start] at part ⊢
  rw [part]
  simp only [trails, if_false]
  rfl

end BlockLang
