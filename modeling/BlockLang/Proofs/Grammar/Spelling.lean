import BlockLang.Proofs.Grammar.Tree

/-!
# What a production spells

Every production that answers has spelled one of its right-hand sides: what it added to the trace,
apart from declared and dropped variables, is the walk around trees that stand for the symbols of
that right-hand side. So the trace of a whole program is the walk around a derivation tree.

## Main definitions

* `skeleton`: a trace without declared and dropped variables
* `Spelled s ss t`: from `s` to `t` the trace grew by trees that stand for the symbols `ss`
* `Analyser.Takes m ss`, `Analyser.Spells m W s`: what a move spells if it answers

## Main results

* `takes_analyser`: a production that answers has spelled a derivation
* `trace_of_accepted`: the trace of an accepted program is the walk around a derivation of its
  tokens
-/

namespace BlockLang

/-- A trace without declared and dropped variables. -/
def skeleton (events : List Event) : List Event :=
  events.filter fun e => e.kind ≠ .add ∧ e.kind ≠ .remove

@[simp] theorem skeleton_append (es fs : List Event) :
    skeleton (es ++ fs) = skeleton es ++ skeleton fs := by
  simp [skeleton]

@[simp] theorem skeleton_nil : skeleton [] = [] := rfl

@[simp] theorem skeleton_begin (p : String) : skeleton [.begin p] = [.begin p] := rfl

@[simp] theorem skeleton_finish (p : String) : skeleton [.finish p] = [.finish p] := rfl

@[simp] theorem skeleton_terminal (t : Token) : skeleton [.terminal t] = [.terminal t] := rfl

@[simp] theorem skeleton_add (v : Variable) : skeleton [.add v] = [] := rfl

@[simp] theorem skeleton_removes (vs : List Variable) : skeleton (vs.map Event.remove) = [] := by
  simp [skeleton, Event.kind]

/-- The skeleton accepts the same tokens. -/
theorem accepted_skeleton (events : List Event) : accepted (skeleton events) = accepted events := by
  induction events with
  | nil => rfl
  | cons e events ih =>
    have one : accepted (skeleton [e]) = accepted [e] := by cases e <;> rfl
    rw [← List.singleton_append, skeleton_append, accepted_append, accepted_append, one, ih]

namespace Tree

/-- The walks around some trees in turn accept their tokens in turn. -/
theorem accepted_traces (children : List Tree)
    (h : ∀ c ∈ children, accepted c.trace = c.yield) :
    accepted (traces children) = yields children := by
  induction children with
  | nil => rfl
  | cons c rest ih =>
    simp only [List.mem_cons, forall_eq_or_imp] at h
    rw [traces, yields, accepted_append, h.1, ih h.2]

/-- The walk around a derivation accepts its tokens. -/
theorem Derived.accepted_trace {d : Tree} (h : d.Derived) : accepted d.trace = d.yield := by
  induction h with
  | leaf t => rfl
  | node p children _ _ ih =>
    change accepted ([.begin p.name] ++ traces children ++ [.finish p.name]) = yields children
    simp only [accepted_append, accepted_begin, accepted_finish, List.nil_append, List.append_nil]
    exact accepted_traces children ih

theorem traces_append (cs ds : List Tree) : traces (cs ++ ds) = traces cs ++ traces ds := by
  induction cs with
  | nil => rfl
  | cons c cs ih => simp [traces, ih]

end Tree

/-- From `s` to `t` the trace grew by the walks around trees that stand for the symbols `ss`. -/
def Spelled (s : AnalyserState) (ss : List Symbol) (t : AnalyserState) : Prop :=
  ∃ children : List Tree, children.map Tree.symbol = ss ∧ (∀ c ∈ children, c.Derived) ∧
    skeleton t.trace = skeleton s.trace ++ Tree.traces children

variable {r s t : AnalyserState} {ss ts : List Symbol}

namespace Spelled

/-- Nothing was spelled. -/
theorem nil (h : skeleton t.trace = skeleton s.trace) : Spelled s [] t :=
  ⟨[], rfl, by simp, by simpa [Tree.traces] using h⟩

/-- One tree was spelled. -/
theorem tree {d : Tree} (hd : d.Derived) (h : skeleton t.trace = skeleton s.trace ++ d.trace) :
    Spelled s [d.symbol] t :=
  ⟨[d], rfl, by simpa using hd, by simpa [Tree.traces] using h⟩

theorem append (h : Spelled r ss s) (h' : Spelled s ts t) : Spelled r (ss ++ ts) t := by
  obtain ⟨cs, rfl, hcs, hs⟩ := h
  obtain ⟨ds, rfl, hds, ht⟩ := h'
  refine ⟨cs ++ ds, by simp, fun c hc => ?_, by simp [ht, hs, Tree.traces_append]⟩
  exact (List.mem_append.mp hc).elim (hcs c) (hds c)

end Spelled

namespace Analyser

variable {α β : Type} {m : Analyser α} {f : α → Analyser β} {W : List Symbol → Prop}

/-- The move spells `ss` whenever it answers. -/
def Takes (m : Analyser α) (ss : List Symbol) : Prop :=
  ∀ s, Ensures m (fun _ t => Spelled s ss t) (fun _ _ => True) s

/-- If the move answers from `s`, it has spelled what `W` allows. -/
def Spells (m : Analyser α) (W : List Symbol → Prop) (s : AnalyserState) : Prop :=
  Ensures m (fun _ t => ∃ ss, W ss ∧ Spelled s ss t) (fun _ _ => True) s

/-! ## Moves -/

/-- The last move of several. -/
theorem Takes.last (h : Takes m ss) (hW : W ss) : Spells m W s :=
  (h s).answer fun _ _ ht => ⟨ss, hW, ht⟩

/-- A move before others: what it spells comes first. -/
theorem Takes.bind (h : Takes m ss) (hf : ∀ a t, Spells (f a) (fun ts => W (ss ++ ts)) t) :
    Spells (m >>= f) W s := by
  refine ensures_bind.mpr ((h s).answer fun a t ht => ?_)
  refine (hf a t).answer fun b u hu => ?_
  obtain ⟨ts, hW, hu⟩ := hu
  exact ⟨ss ++ ts, hW, ht.append hu⟩

/-- A move that spells nothing. -/
theorem Takes.skip (h : Takes m []) (hf : ∀ a t, Spells (f a) W t) : Spells (m >>= f) W s :=
  h.bind hf

theorem spells_pure (a : α) (hW : W []) : Spells (pure a) W s := ⟨[], hW, .nil rfl⟩

theorem spells_lookahead {f : Token → Analyser β} (h : Spells (f s.lookahead) W s) :
    Spells (lookahead >>= f) W s := ensures_bind.mpr h

theorem spells_lookingAt {p : TokenType → Bool} {f : Bool → Analyser β}
    (h : Spells (f (p s.lookahead.type)) W s) : Spells (lookingAt p >>= f) W s :=
  ensures_bind.mpr h

/-- A refusal spells anything, since it does not answer. -/
theorem spells_reject {cause : Token → Cause} : Spells (reject (α := α) cause) W s := trivial

theorem spells_require {p : TokenType → Bool} {cause : Token → Cause} {f : Unit → Analyser β}
    (h : p s.lookahead.type → Spells (f ()) W s) : Spells (require p cause >>= f) W s := by
  refine ensures_bind.mpr (ensures_require.mpr ?_)
  split
  · next hp => exact h hp
  · trivial

theorem takes_accept (u : TokenType) : Takes (accept u) [.terminal u] := by
  refine fun s => ensures_accept (fun next input hu _ => ?_) (fun _ _ _ _ => trivial)
    fun _ => trivial
  subst hu
  exact .tree (.leaf s.lookahead) (by simp [Tree.trace])

theorem takes_expect (u : TokenType) : Takes (expect u) [.terminal u] := fun s =>
  ensures_expect.mpr (takes_accept u s)

/-- A move that does not touch the trace spells nothing. -/
theorem takes_nil (h : ∀ s, Ensures m (fun _ t => t.trace = s.trace) (fun _ _ => True) s) :
    Takes m [] := fun s => (h s).answer fun _ _ ht => .nil (by rw [ht])

theorem takes_typeOf (token : Token) : Takes (typeOf token) [] := takes_nil fun _ => rfl

theorem takes_beginChain : Takes beginChain [] := takes_nil fun _ => rfl

theorem takes_beginTerm : Takes beginTerm [] := takes_nil fun _ => rfl

theorem takes_recordTerm (t : ValueType) : Takes (recordTerm t) [] := takes_nil fun _ => rfl

theorem takes_requireDeclared : Takes requireDeclared [] := by
  refine takes_nil fun s => ensures_requireDeclared.mpr ?_
  split
  · split
    · rfl
    · trivial
  · rfl

theorem takes_checkSum (join : Option Join) : Takes (checkSum join) [] := by
  refine takes_nil fun s => ensures_checkSum.mpr ?_
  split
  · trivial
  · rfl

theorem takes_checkFactor (operator : TokenType) (t : ValueType) (side : String) (token : Token) :
    Takes (checkFactor operator t side token) [] := by
  refine takes_nil fun s => ensures_checkFactor.mpr ?_
  split
  · trivial
  · rfl

theorem takes_declare (v : Variable) : Takes (declare v) [] := fun s =>
  ensures_declare.mpr (.nil (by simp [AnalyserState.trace_emit]; rfl))

/-! ## Frames -/

theorem takes_inFreshChain (h : Takes m ss) : Takes (inFreshChain m) ss := fun s =>
  ensures_inFreshChain.mpr (h { s with chain := .fresh })

theorem takes_inLoopScope (h : Takes m ss) : Takes (inLoopScope m) ss := by
  -- The variables that the scope drops at its end are not part of the skeleton.
  refine fun s => ensures_inLoopScope.mpr ((h (enterLoop s)).answer fun _ t ht => ?_)
  obtain ⟨removed, hr⟩ := t.trace_leaveLoop
  have dropped : Spelled t [] (leaveLoop t) := .nil (by simp [hr])
  have both := ht.append dropped
  rw [List.append_nil] at both
  exact both

/-- A production spells itself if what it is made of is one of its right-hand sides. -/
theorem takes_within {p : Production} (h : ∀ s, Spells m (· ∈ p.extended.words) s) :
    Takes (within p m) [.rule p] := by
  refine fun s => ensures_within.mpr ((h (s.emit (.begin p.name))).answer fun _ t ht => ?_)
  obtain ⟨_, allowed, children, rfl, parts, ht⟩ := ht
  exact .tree (.node p children allowed parts) (by simp [Tree.trace, ht])

end Analyser

open Analyser

/-- A production spells one of its right-hand sides if its parts spell themselves. -/
theorem spells_rule {call : Callee} (parts : ∀ c : Call, Takes (call c) [.rule c.production])
    (c : Call) (s : AnalyserState) : Spells (rule call c) (· ∈ c.production.extended.words) s := by
  -- What is spelled on each way through a rule is one of the right-hand sides.
  cases c with
  | statementPart =>
    exact (takes_expect _).bind fun _ _ => (parts _).bind fun _ _ =>
      (takes_expect _).last (by decide)
  | statementList =>
    refine (parts _).bind fun _ _ => spells_lookingAt ?_
    split
    · refine (takes_expect _).bind fun _ _ => spells_lookingAt ?_
      split
      · exact (parts _).last (by decide)
      · exact spells_pure _ (by decide)
    · exact spells_pure _ (by decide)
  | statement =>
    refine spells_lookahead ?_
    split
    · exact (parts _).last (by decide)
    · exact (parts _).last (by decide)
    · exact (parts _).last (by decide)
    · exact (parts _).last (by decide)
    · exact (parts _).last (by decide)
    · exact (takes_inLoopScope (parts _)).last (by decide)
    · exact spells_reject
  | assignmentStatement =>
    refine (takes_accept _).bind fun _ _ => (takes_expect _).bind fun _ _ => spells_lookahead ?_
    split
    · exact takes_beginChain.skip fun _ _ => (parts _).bind fun _ _ =>
        (takes_declare _).last (by decide)
    · split
      · exact (takes_expect _).bind fun _ _ => (takes_declare _).last (by decide)
      · exact ensures_bind.mpr trivial
  | ifStatement =>
    refine (takes_expect _).bind fun _ _ => (parts _).bind fun _ _ =>
      (takes_expect _).bind fun _ _ => (parts _).bind fun _ _ => spells_lookahead ?_
    split
    · exact (takes_expect _).bind fun _ _ => (takes_expect _).last (by decide)
    · exact (takes_expect _).bind fun _ _ => (parts _).bind fun _ _ =>
        (takes_expect _).bind fun _ _ => (takes_expect _).last (by decide)
    · exact spells_reject
  | whileStatement =>
    exact (takes_expect _).bind fun _ _ => (parts _).bind fun _ _ =>
      (takes_expect _).bind fun _ _ => (parts _).bind fun _ _ =>
      (takes_expect _).bind fun _ _ => (takes_expect _).last (by decide)
  | untilStatement =>
    exact (takes_expect _).bind fun _ _ => (parts _).bind fun _ _ =>
      (takes_expect _).bind fun _ _ => (parts _).last (by decide)
  | forStatement =>
    exact (takes_expect _).bind fun _ _ => (takes_expect _).bind fun _ _ =>
      (parts _).bind fun _ _ => (takes_expect _).bind fun _ _ => (parts _).bind fun _ _ =>
      (takes_expect _).bind fun _ _ => (parts _).bind fun _ _ => (takes_expect _).bind fun _ _ =>
      (takes_expect _).bind fun _ _ =>
      (parts _).bind fun _ _ => (takes_expect _).bind fun _ _ => (takes_expect _).last (by decide)
  | procedureStatement =>
    exact (takes_expect _).bind fun _ _ => (takes_expect _).bind fun _ _ =>
      (takes_expect _).bind fun _ _ => (parts _).bind fun _ _ => (takes_expect _).last (by decide)
  | argumentList =>
    refine takes_requireDeclared.skip fun _ _ => (takes_expect _).bind fun _ _ =>
      spells_lookingAt ?_
    split
    · exact (takes_expect _).bind fun _ _ => (parts _).last (by decide)
    · exact spells_pure _ (by decide)
  | condition =>
    refine takes_requireDeclared.skip fun _ _ => (takes_expect _).bind fun _ _ =>
      (parts _).bind fun _ _ => spells_lookahead ?_
    split
    · exact takes_requireDeclared.skip fun _ _ => (takes_expect _).last (by decide)
    · exact (takes_expect _).last (by decide)
    · exact (takes_expect _).last (by decide)
    · exact spells_reject
  | conditionalOperator =>
    -- Whatever operator was seen, its token is a right-hand side.
    refine spells_require fun hs => spells_lookahead ((takes_expect _).last ?_)
    revert hs
    generalize s.lookahead.type = u
    cases u <;> decide
  | expression join =>
    refine takes_beginTerm.skip fun _ _ => spells_require fun _ => (parts .term).bind fun t _ =>
      (takes_recordTerm t).skip fun _ _ => (takes_checkSum join).skip fun _ s =>
      spells_lookingAt ?_
    split
    · next hs =>
      refine spells_lookahead ((takes_accept _).bind fun _ _ => spells_lookahead
        ((parts (.expression _)).bind fun _ _ => spells_pure _ ?_))
      change [.rule .term, .terminal s.lookahead.type, .rule .expression] ∈
        Production.expression.extended.words
      revert hs
      generalize s.lookahead.type = u
      cases u <;> decide
    · exact spells_pure _ (by change [.rule .term] ∈ Production.expression.extended.words; decide)
  | term =>
    refine spells_require fun _ => (parts .factor).bind fun left s => spells_lookingAt ?_
    split
    · next hs =>
      refine spells_lookahead ((takes_accept _).bind fun _ _ => spells_lookahead
        ((takes_checkFactor _ _ _ _).skip fun _ _ => (takes_typeOf _).skip fun _ _ =>
        (takes_checkFactor _ _ _ _).skip fun _ _ => (parts .term).bind fun _ _ =>
        (takes_checkFactor _ _ _ _).skip fun _ _ => spells_pure _ ?_))
      revert hs
      generalize s.lookahead.type = u
      cases u <;> decide
    · exact spells_pure _ (by decide)
  | factor =>
    refine spells_lookahead ?_
    split
    · exact takes_requireDeclared.skip fun _ _ => (takes_expect _).bind fun _ _ =>
        spells_pure _ (by decide)
    · exact (takes_expect _).bind fun _ _ => spells_pure _ (by decide)
    · exact (takes_expect _).bind fun _ _ => (takes_inFreshChain (parts (.expression none))).bind
        fun _ _ => (takes_expect _).bind fun _ _ => spells_pure _ (by decide)
    · exact spells_reject

/-- A production that answers has spelled a derivation. -/
theorem takes_analyser (limit : Nat) (c : Call) :
    Takes (analyser limit c) [.rule c.production] := by
  induction limit generalizing c with
  -- A run that may open nothing does not answer.
  | zero => exact fun _ => trivial
  | succ limit ih => exact takes_within (spells_rule ih c)

/-- The derivation behind a production that answered: its walk was told, and its tokens were
taken. -/
theorem exists_derived_of_ok {limit : Nat} {c : Call} {a : c.Result}
    (h : analyser limit c s = .ok a t) :
    ∃ d : Tree, d.Derived ∧ d.symbol = .rule c.production ∧
      skeleton t.trace = skeleton s.trace ++ d.trace ∧ Passes s.place d.yield t.place ∧
      t.accepted = s.accepted ++ d.yield := by
  obtain ⟨children, hs, parts, ht⟩ := (takes_analyser limit c s).of_ok h
  obtain ⟨d, rfl, hd⟩ := List.map_eq_singleton_iff.mp hs
  have reaches : Reaches s t := ((composed_analyser limit c).steady s).of_ok h
  have derived : d.Derived := parts d List.mem_cons_self
  have told : skeleton t.trace = skeleton s.trace ++ d.trace := by simpa [Tree.traces] using ht
  -- The tokens of the tree are those that the trace accepts, and the run took these.
  have spelled : t.accepted = s.accepted ++ d.yield := by
    have tokens := congrArg BlockLang.accepted told
    simpa [AnalyserState.accepted, accepted_skeleton, derived.accepted_trace] using tokens
  exact ⟨d, derived, hd, told, reaches.passes spelled, spelled⟩

/-- The derivation behind a run of the first production that answered. -/
theorem exists_derivation {limit : Nat} {first : Token} {input : TokenStream}
    (h : analyser limit .statementPart (.start first input) = .ok () t) :
    ∃ d : Tree, d.Derives .statementPart (accepted t.trace) ∧ skeleton t.trace = d.trace ∧
      Passes (first, input) d.yield t.place := by
  obtain ⟨d, derived, hd, told, passes, taken⟩ := exists_derived_of_ok h
  have yield_eq : t.accepted = d.yield := by simpa using taken
  exact ⟨d, ⟨derived, hd, yield_eq.symm⟩, told, passes⟩

/-- The trace of an accepted program is the walk around a derivation of its tokens, and these are
what the stream delivers before the end of the file. -/
theorem trace_of_accepted {stream : TokenStream} (h : (analyse stream).outcome = .ok ()) :
    ∃ (d : Tree) (last : Token),
      d.Derives .statementPart (accepted (analyse stream).events.toList) ∧
      skeleton (analyse stream).events.toList = d.trace ∧
      (∀ t ∈ d.yield, t.type ≠ .endOfFile) ∧ last.type = .endOfFile ∧
      stream.front (d.yield.length + 1) = (d.yield ++ [last]).map .ok := by
  obtain ⟨first, input, t, pulled, run, left⟩ := exists_run_of_ok h
  obtain ⟨part, last⟩ := program_eq_ok_iff.mp run
  obtain ⟨d, derives, trace_eq, passes⟩ := exists_derivation part
  refine ⟨d, t.lookahead, ?_, ?_, ?_, last, passes.front pulled⟩
  · rw [analyse, left]
    exact derives
  · rw [analyse, left]
    exact trace_eq
  · exact derives.derived.type_ne_endOfFile (by simp [derives.symbol_eq])

/-- A program that assigns a number. -/
def assigning : TokenStream :=
  .ofList ([⟨.beginKeyword, "begin", ⟨1, 1⟩⟩, ⟨.identifier, "x", ⟨1, 7⟩⟩,
    ⟨.colonEqual, ":=", ⟨1, 9⟩⟩, ⟨.numberLiteral, "1", ⟨1, 12⟩⟩,
    ⟨.endKeyword, "end", ⟨1, 14⟩⟩].map .ok)

theorem trace_of_accepted_assigning :
    (analyse assigning).outcome = .ok () ∧
      ∃ (d : Tree) (last : Token),
        d.Derives .statementPart (accepted (analyse assigning).events.toList) ∧
        skeleton (analyse assigning).events.toList = d.trace ∧
        (∀ t ∈ d.yield, t.type ≠ .endOfFile) ∧ last.type = .endOfFile ∧
        assigning.front (d.yield.length + 1) = (d.yield ++ [last]).map .ok :=
  ⟨by rfl, trace_of_accepted (by rfl)⟩

end BlockLang
