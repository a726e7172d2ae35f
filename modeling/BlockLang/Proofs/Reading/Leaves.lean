import BlockLang.Proofs.Depth.Limit
import BlockLang.Proofs.Grammar.Spelling
import BlockLang.Proofs.Reading.Values

/-!
# Expressions that were read

An expression that was read has a derivation, however it came to be read, and its answer is the type
that its tokens have. So every identifier in it stands for a variable of that type.

## Main results

* `analyser_eq_of_ok`: a production that answers under a limit answers the same under a higher one
* `closes_analyser`: what comes behind a value does not go on with it
* `exists_hasType_of_read`: the answer of an expression is the type of its tokens
-/

namespace BlockLang

open Analyser

variable {limit K : Nat} {s t : AnalyserState} {δ : Declarations} {τ : ValueType}

/-- A production that answers under a limit answers the same under a higher one. -/
theorem analyser_eq_of_ok {c : Call} {a : c.Result} (run : analyser limit c s = .ok a t)
    (le : limit ≤ K) : analyser K c s = .ok a t := by
  obtain ⟨es, d, needs⟩ := exists_needs_analyser K c s
  by_cases enough : d ≤ limit
  · exact (needs.enough limit le enough).symm.trans run
  · obtain ⟨u, short⟩ := needs.short limit le (Nat.lt_of_not_le enough)
    cases run.symm.trans short

/-! ## What comes behind a value -/

/-- What comes behind the production when it was read does not go on with it. -/
def Closes (call : Callee) (c : Call) : Prop :=
  ∀ s, Ensures (call c) (fun _ t => c.production.goesOn t.lookahead.type = false)
    (fun _ _ => True) s

/-- A term ends where no other factor comes. -/
theorem closes_term {call : Callee} (h : Closes call .term) (s : AnalyserState) :
    Ensures (rule call .term) (fun _ t => Production.term.goesOn t.lookahead.type = false)
      (fun _ _ => True) s := by
  refine ensures_bind_last fun _ t => ensures_bind_last fun left t => ?_
  refine ensures_bind.mpr (ensures_lookingAt.mpr ?_)
  split
  · refine ensures_bind_last fun _ _ => ensures_bind_last fun _ _ => ?_
    refine ensures_bind_last fun _ _ => ensures_bind_last fun _ _ => ?_
    refine ensures_bind_last fun _ _ => ensures_bind_last fun _ _ => ?_
    refine ensures_bind.mpr ((h _).answer fun right t closed => ?_)
    refine ensures_bind.mpr (ensures_checkFactor.mpr ?_)
    split
    · trivial
    · exact closed
  · next single => exact Bool.eq_false_of_not_eq_true single

/-- A sum ends where no other term comes. -/
theorem closes_expression {call : Callee} (hterm : Closes call .term)
    (h : ∀ join, Closes call (.expression join)) (join : Option Join) (s : AnalyserState) :
    Ensures (rule call (.expression join))
      (fun _ t => Production.expression.goesOn t.lookahead.type = false) (fun _ _ => True) s := by
  refine ensures_bind_last fun _ t => ensures_bind_last fun _ t => ?_
  refine ensures_bind.mpr ((hterm _).answer fun τ t factors => ?_)
  refine ensures_bind.mpr (ensures_recordTerm.mpr (ensures_bind.mpr (ensures_checkSum.mpr ?_)))
  split
  · trivial
  · refine ensures_bind.mpr (ensures_lookingAt.mpr ?_)
    split
    · refine ensures_bind_last fun _ _ => ensures_bind_last fun _ _ => ?_
      refine ensures_bind_last fun _ _ => ?_
      exact ensures_bind.mpr ((h _ _).answer fun _ _ closed => closed)
    · next terms =>
      -- No factor comes behind the term, and no term behind the sum.
      change Production.expression.goesOn t.lookahead.type = false
      revert factors terms
      cases t.lookahead.type <;> simp [Call.production, Production.goesOn, TokenType.isArithmetic]

/-- What comes behind a term or a sum does not go on with it, under every limit. -/
theorem closes_analyser (limit : Nat) :
    Closes (analyser limit) .term ∧ ∀ join, Closes (analyser limit) (.expression join) := by
  induction limit with
  | zero => exact ⟨fun _ => trivial, fun _ _ => trivial⟩
  | succ limit ih =>
    refine ⟨fun s => ?_, fun join s => ?_⟩
    · rw [analyser_succ, ensures_within]
      exact closes_term ih.1 _
    · rw [analyser_succ, ensures_within]
      exact closes_expression ih.1 ih.2 join _

/-! ## What was read -/

/-- An expression that was read, from a fresh chain on, answers with the type of its tokens. -/
theorem exists_hasType_of_read (run : analyser limit (.expression none) s = .ok τ t)
    (fresh : s.chain = .fresh) (hs : s.scopes = δ.scopes) (known : δ.Known) :
    ∃ w, w ≠ [] ∧ Passes s.place w t.place ∧ t.accepted = s.accepted ++ w ∧ HasType δ w τ := by
  obtain ⟨d, derived, symbol, -, passes, taken⟩ := exists_derived_of_ok run
  have closed : Production.expression.goesOn t.place.1.type = false :=
    ((closes_analyser limit).2 none s).of_ok run
  -- Under a limit that the height of the derivation allows, the run is the same.
  have same := analyser_eq_of_ok run (le_max_left limit d.height)
  have reads := derived.readsValue (le_max_right limit d.height)
  obtain ⟨typed, -⟩ := (reads.expression symbol none ⟨passes, hs, known⟩ closed fresh).of_ok same
  exact ⟨d.yield, List.ne_nil_of_length_pos derived.length_yield_pos, passes, taken,
    ((typed τ).mpr rfl).1⟩

end BlockLang
