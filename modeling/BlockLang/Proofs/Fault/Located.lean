import BlockLang.Proofs.Fault.Misfit
import BlockLang.Proofs.Fault.Unwinding

/-!
# Located mismatches

A mismatch that has stopped a run is located if the trace before it tells of operands that do not
fit. The moves of the analyser go from moment to moment of a rule, and where they check operands,
what was read since the operands began tells what is wrong with them.

## Main definitions

* `Moment p s`: a state between moves of a rule, as long as there was no error
* `Located stop t`: if a mismatch has stopped the run, the trace tells of its misfit
* `Analyser.Localises p m`: a move of a rule that is stopped by a mismatch tells of its misfit
* `AnalyserState.Sums s sum more`: the state stands behind a sum whose operators suit their terms
* `AnalyserState.AtTerm join s`: a term of a sum comes next

## Main results

* `Assembled.moment`: behind a move of a rule, the state is again a moment
* `Analyser.ensures_checkFactor_located`: where an operand of `*` or `/` is checked
* `AnalyserState.AtTerm.check`: where a term of a sum is checked
-/

namespace BlockLang

open Analyser

variable {α β : Type} {m : Analyser α} {f : α → Analyser β} {s t u : AnalyserState}
  {p q : Production} {limit : Nat} {stop : Stop} {token op : Token} {mismatch : Mismatch}

/-! ## Moments -/

/-- The state is one between moves of the rule of `p`, and no error was told of. -/
structure Moment (p : Production) (s : AnalyserState) : Prop extends Between p s where
  errorFree : ErrorFree s.trace

namespace Moment

theorem congr (h : Moment p s) (hs : t.scopes = s.scopes) (ht : t.trace = s.trace) : Moment p t :=
  ⟨h.toBetween.congr hs ht, ht ▸ h.errorFree⟩

/-- One entry more that is no error. -/
theorem errorFree_concat {events : List Event} {e : Event} (h : ErrorFree events)
    (he : e.kind ≠ .error) : ErrorFree (events ++ [e]) :=
  h.append (List.forall_mem_singleton.mpr he)

theorem terminal (h : Moment p s) (hs : t.scopes = s.scopes)
    (ht : t.trace = s.trace ++ [.terminal token]) : Moment p t :=
  ⟨h.toBetween.terminal hs ht, ht ▸ errorFree_concat h.errorFree nofun⟩

theorem begin (h : Moment p s) (plain : q ≠ .forStatement)
    (proper : p.readsOnly = false ∨ q.readsOnly) : Moment q (s.emit (.begin q.name)) :=
  ⟨h.toBetween.begin plain proper,
    s.trace_emit (.begin q.name) ▸ errorFree_concat h.errorFree nofun⟩

theorem beginLoop (h : Moment p s) (outside : p.readsOnly = false) :
    Moment .forStatement ((enterLoop s).emit (.begin Production.forStatement.name)) :=
  ⟨h.toBetween.beginLoop outside,
    (enterLoop s).trace_emit (.begin Production.forStatement.name) ▸
      errorFree_concat h.errorFree nofun⟩

end Moment

/-- Behind a move of the rule, the state is again a moment. -/
theorem Assembled.moment (h : Assembled (analyser limit) p m) (hs : Moment p s) :
    Ensures m (fun _ t => Moment p t) (fun _ _ => True) s := by
  have orderly := (h.composed (composed_analyser limit)).orderly s
  refine (h.between (tellingParts_analyser limit) hs.toBetween).answer_of_run fun a t run ht => ?_
  obtain ⟨events, settled, told⟩ := orderly.of_ok run
  exact ⟨ht, told ▸ hs.errorFree.append settled.errorFree⟩

/-! ## Located mismatches -/

/-- If a mismatch has stopped the run, then what was told before it tells that operands do not fit,
and it was told of at the token behind their operator. -/
def Located (stop : Stop) (t : AnalyserState) : Prop :=
  ∀ f, stop = .fault f → f.root.kind = .mismatch → ∃ before after op token m,
    t.trace = before ++ .error token (.ofLink f.root) :: after ∧ ErrorFree before ∧
      f.root = (Cause.mismatch m).link token ∧
      Misfit (replay .empty before).scopes t.lookahead before op token m

namespace Located

theorem congr (h : Located stop t) (ht : u.trace = t.trace) (hl : u.lookahead = t.lookahead) :
    Located stop u := by
  intro f hf kind
  obtain ⟨before, after, op, token, m, told, errorFree, root, misfit⟩ := h f hf kind
  exact ⟨before, after, op, token, m, ht.trans told, errorFree, root, hl ▸ misfit⟩

/-- A stop that is no mismatch needs no place. -/
theorem of_cause {cause : Cause} (h : cause.kind ≠ .mismatch) :
    Located (.fault (.ofLink (cause.link token))) t := by
  rintro _ ⟨⟩ kind
  exact absurd kind h

theorem lexical (e : LexicalError) : Located (.lexical e) t := nofun

/-- A mismatch where operands do not fit. -/
theorem of_misfit (hs : Moment p s) (h : Misfit s.scopes s.lookahead s.trace op token mismatch) :
    Located (.fault (.ofLink ((Cause.mismatch mismatch).link token)))
      (s.emit (.error token (.ofLink ((Cause.mismatch mismatch).link token)))) := by
  rintro _ ⟨⟩ -
  exact ⟨s.trace, [], op, token, mismatch, s.trace_emit _, hs.errorFree, rfl, hs.scopes_eq ▸ h⟩

/-- A production that is left does not change the place. -/
theorem through (h : Located stop t) (name : String) :
    Located (stop.through name t.lookahead) (t.abandon name stop) := by
  cases stop with
  | lexical e => nofun
  | tooDeep => nofun
  | fault g =>
    rintro _ ⟨⟩ kind
    rw [Fault.root_within] at kind ⊢
    obtain ⟨before, after, op, token, m, told, errorFree, root, misfit⟩ := h g rfl kind
    refine ⟨before, after ++ (Stop.fault g).farewell name t.lookahead, op, token, m, ?_, errorFree,
      root, misfit⟩
    simp [told]

end Located

namespace Analyser

/-- From a moment of the rule of `p`, the move comes to another one, and a mismatch that stops it is
located. -/
def Localises (p : Production) (m : Analyser α) : Prop :=
  ∀ s, Moment p s → Ensures m (fun _ t => Moment p t) Located s

theorem localises_of_same
    (h : ∀ s, Ensures m (fun _ t => t.scopes = s.scopes ∧ t.trace = s.trace) Located s) :
    Localises p m := fun s hs => (h s).answer fun _ _ same => hs.congr same.1 same.2

theorem Localises.bind (hm : Localises p m) (hf : ∀ a, Localises p (f a)) :
    Localises p (m >>= f) := fun s hs =>
  ensures_bind.mpr ((hm s hs).answer fun a t ht => hf a t ht)

theorem localises_pure (a : α) : Localises p (pure a) := localises_of_same fun _ => ⟨rfl, rfl⟩

theorem localises_lookahead : Localises p lookahead := localises_of_same fun _ => ⟨rfl, rfl⟩

theorem localises_lookingAt (sort : TokenType → Bool) : Localises p (lookingAt sort) :=
  localises_of_same fun _ => ⟨rfl, rfl⟩

theorem localises_reject {cause : Token → Cause} (h : ∀ t, (cause t).kind = .parse) :
    Localises p (reject (α := α) cause) := fun s _ =>
  ensures_reject.mpr (ensures_rejectAt.mpr (.of_cause (by rw [h]; nofun)))

/-- A token that is taken leads from one moment to the next. -/
theorem ensures_accept_located {wanted : TokenType} {Q : Token → AnalyserState → Prop}
    (hs : Moment p s)
    (taken : ∀ next input, s.lookahead.type = wanted → Moment p (s.advance next input) →
      Q s.lookahead (s.advance next input)) : Ensures (accept wanted) Q Located s :=
  ensures_accept
    (fun next input hw _ => taken next input hw (hs.terminal rfl (s.trace_advance next input)))
    (fun e _ _ _ => .lexical e) fun _ => ensures_rejectAt.mpr (.of_cause nofun)

theorem localises_accept (wanted : TokenType) : Localises p (accept wanted) := fun _ hs =>
  ensures_accept_located hs fun _ _ _ taken => taken

theorem localises_expect (wanted : TokenType) : Localises p (expect wanted) :=
  (localises_accept wanted).bind fun _ => localises_pure _

/-- A token of no fitting sort is no mismatch. -/
theorem ensures_require_located {sort : TokenType → Bool} {cause : Token → Cause}
    {Q : Unit → AnalyserState → Prop} (h : ∀ t, (cause t).kind = .parse) (fits : Q () s) :
    Ensures (require sort cause) Q Located s := by
  refine ensures_require.mpr ?_
  split
  · exact fits
  · exact ensures_rejectAt.mpr (.of_cause (by rw [h]; nofun))

theorem localises_require (sort : TokenType → Bool) {cause : Token → Cause}
    (h : ∀ t, (cause t).kind = .parse) : Localises p (require sort cause) := fun _ hs =>
  ensures_require_located h hs

theorem localises_declare (v : Variable) : Localises .assignmentStatement (declare v) := by
  have assembled : Assembled (analyser 0) .assignmentStatement (declare v) := .declare v rfl
  exact fun s hs => ensures_declare.mpr (ensures_declare.mp (assembled.moment hs))

theorem localises_requireDeclared : Localises p requireDeclared := by
  refine localises_of_same fun s => ensures_requireDeclared.mpr ?_
  split
  · split
    · exact ⟨rfl, rfl⟩
    · exact ensures_rejectAt.mpr (.of_cause nofun)
  · exact ⟨rfl, rfl⟩

/-- Operands of `*` and `/` are checked where the trace tells what is wrong with them. -/
theorem ensures_checkFactor_located {τ : ValueType} {side : String}
    {Q : Unit → AnalyserState → Prop} (hs : Moment p s)
    (found : τ = .string →
      Misfit s.scopes s.lookahead s.trace op token (.stringFactor op.type side))
    (plain : τ ≠ .string → Q () s) :
    Ensures (checkFactor op.type τ side token) Q Located s := by
  refine ensures_checkFactor.mpr ?_
  split
  · next string => exact ensures_rejectAt.mpr (.of_misfit hs (found string))
  · next other => exact plain other

end Analyser

/-! ## Terms of a sum -/

/-- The state stands behind a sum whose operators suit their terms, and `more` was told since. -/
structure AnalyserState.Sums (s : AnalyserState) (sum : OpenSum) (more : List Event) : Prop where
  proper : sum.Proper
  suits : sum.Suits s.scopes
  chain_eq : s.chain = sum.chain s.scopes
  told : ∃ outside opener, (opener.type = .colonEqual ∨ opener.type = .leftParen) ∧
    s.trace = outside ++ .terminal opener :: (sum.trace ++ more)

/-- A term of a sum comes next: the first one, or one behind an operator. -/
def AnalyserState.AtTerm (s : AnalyserState) : Option Join → Prop
  | none => s.chain = .fresh ∧ ∃ outside opener,
      (opener.type = .colonEqual ∨ opener.type = .leftParen) ∧
        s.trace = outside ++ [.terminal opener]
  | some join => ∃ sum op, s.Sums sum [.terminal op] ∧ (op.type = .plus ∨ op.type = .minus) ∧
      join = ⟨op.type, s.lookahead⟩

/-- Behind one of its operators, a sum goes on with a term. -/
theorem AnalyserState.Sums.next {sum : OpenSum} (h : s.Sums sum [])
    (operator : s.lookahead.type = .plus ∨ s.lookahead.type = .minus) (next : Token)
    (input : TokenStream) : (s.advance next input).AtTerm (some ⟨s.lookahead.type, next⟩) := by
  obtain ⟨outside, opener, opens, told⟩ := h.told
  refine ⟨sum, s.lookahead, ⟨h.proper, h.suits, h.chain_eq, outside, opener, opens, ?_⟩, operator,
    rfl⟩
  simp [told]

/-- What was read from the first state to the second is a tree of a production. -/
structure AnalyserState.Reads (s : AnalyserState) (q : Production) (τ : ValueType)
    (t : AnalyserState) (d : Tree) : Prop where
  derived : d.Derived
  symbol_eq : d.symbol = .rule q
  type_eq : τ = d.valueType s.scopes
  scopes_eq : t.scopes = s.scopes
  chain_eq : t.chain = s.chain
  told : t.trace = s.trace ++ d.trace
  yield_eq : ∃ rest, d.yield = s.lookahead :: rest

/-- A move that reads trees and leaves the chain as it is, with what else is known of it. -/
theorem Analyser.ReadsTree.reads {m : Analyser ValueType} {Q : ValueType → AnalyserState → Prop}
    {E : Stop → AnalyserState → Prop} (h : ReadsTree q m) (keeps : KeepsChain m) (steady : Steady m)
    (ensured : Ensures m Q E s) :
    Ensures m (fun τ t => Q τ t ∧ ∃ d, s.Reads q τ t d) E s := by
  refine ensured.answer_of_run fun τ t run after => ⟨after, ?_⟩
  obtain ⟨d, symbol, follows, typed, -⟩ := (h s).of_ok run
  have derived : d.Derived := follows.derived d List.mem_cons_self
  -- The tokens of the tree were taken from the lookahead on.
  have passes : Passes s.place d.yield t.place := follows.passes ((steady s).of_ok run)
  obtain ⟨first, rest, yield_eq, -⟩ := derived.exists_cons
  rw [yield_eq] at passes
  obtain rfl : s.lookahead = first := passes.1
  exact ⟨d, derived, symbol, typed, follows.scopes_eq, (keeps s).of_ok run, follows.trace_eq, rest,
    yield_eq⟩

/-- When a term was read, the sum goes on, or the operator before the term does not suit it. -/
theorem AnalyserState.AtTerm.check {join : Option Join} {d : Tree} {rest : List Token}
    (h : s.AtTerm join) (ht : Moment p t) (derived : d.Derived) (term : d.symbol = .rule .term)
    (yield_eq : d.yield = s.lookahead :: rest) (same : t.scopes = s.scopes)
    (chain : t.chain = s.chain.enter.record (d.valueType s.scopes))
    (told : t.trace = s.trace ++ .begin Production.expression.name :: d.trace) :
    Ensures (checkSum join) (fun _ u => Moment p u ∧ ∃ sum, u.Sums sum []) Located t := by
  rw [← same] at chain
  refine ensures_checkSum.mpr ?_
  cases join with
  | none =>
    obtain ⟨fresh, outside, opener, opens, before⟩ := h
    rw [fresh] at chain
    refine ⟨ht, .term d, ⟨derived, term⟩, trivial, chain, outside, opener, opens, ?_⟩
    simp [told, before, OpenSum.trace]
  | some join =>
    obtain ⟨front, op, ⟨proper, suits, chained, outside, opener, opens, before⟩, operator, rfl⟩ := h
    have longer : t.trace = outside ++ .terminal opener :: (front.add op d).trace := by
      simp [told, before, OpenSum.trace]
    have proper' : (front.add op d).Proper := ⟨proper, operator, derived, term⟩
    rw [chained, ← same] at chain
    rw [← same] at suits
    simp only [Option.bind_some, chain]
    -- The chain holds the type of the term before the operator, and now that of the one behind it.
    rcases additiveMismatch?_eq (front.last?_chain t.scopes) op.type (d.valueType t.scopes) with
      ⟨fits, suited⟩ | ⟨misfit, breaks⟩
    · rw [fits]
      refine ⟨ht, front.add op d, proper', ⟨suits, suited⟩, chain, outside, opener, opens, ?_⟩
      simpa using longer
    · rw [misfit]
      have found : Misfit t.scopes t.lookahead t.trace op s.lookahead
          (op.type.misfit (front.last.valueType t.scopes) (d.valueType t.scopes)) := by
        rw [longer]
        exact .sum opens proper' suits breaks yield_eq
      exact ensures_rejectAt.mpr (.of_misfit ht found)

end BlockLang
