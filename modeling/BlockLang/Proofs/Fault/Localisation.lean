import BlockLang.Proofs.Fault.Chain
import BlockLang.Proofs.Fault.Located

/-!
# Where faults are reported

A fault that is no mismatch stands at the lookahead, the first token that was not accepted. A
mismatch stands at the token behind an operator, and everything that was read before tells that the
operands of this operator do not fit, and that those of the operators before it in its sum do. In
either case the position of the fault is that of the token.

## Main definitions

* `Call.Prepared c s`: where a sum is analysed, a term of it comes next
* `LocalisesParts limit`: every production that is stopped by a mismatch tells of its misfit
* `ReportedAt stream a f before token lookahead`: where an analysis told of its fault

## Main results

* `localises_analyser`, `localises_program`: mismatches are located, under every limit
* `fault_is_localised`: where the faults of an analysis are reported
-/

namespace BlockLang

open Analyser

variable {s : AnalyserState} {p : Production} {limit : Nat}

/-! ## Productions -/

/-- Where a sum is analysed, a term of it comes next. -/
def Call.Prepared : Call → AnalyserState → Prop
  | .expression join, s => s.AtTerm join
  | _, _ => True

/-- Every production that is stopped by a mismatch tells of its misfit. -/
def LocalisesParts (limit : Nat) : Prop :=
  ∀ c s, Moment c.production (s.emit (.begin c.production.name)) → c.Prepared s →
    Ensures (analyser limit c) (fun _ _ => True) Located s

namespace LocalisesParts

/-- A part of a rule. -/
theorem ensures_part (h : LocalisesParts limit) (hs : Moment p s) (c : Call)
    (plain : c.production ≠ .forStatement) (proper : p.readsOnly = false ∨ c.production.readsOnly)
    (prepared : c.Prepared s) : Ensures (analyser limit c) (fun _ t => Moment p t) Located s :=
  ((Assembled.part c plain proper).moment hs).and_stop (h c s (hs.begin plain proper) prepared)

/-- A part of a rule that needs no preparation. -/
theorem part (h : LocalisesParts limit) (c : Call) (plain : c.production ≠ .forStatement)
    (proper : p.readsOnly = false ∨ c.production.readsOnly) (prepared : ∀ s, c.Prepared s) :
    Localises p (analyser limit c) :=
  fun s hs => h.ensures_part hs c plain proper (prepared s)

/-- A loop. -/
theorem loop (h : LocalisesParts limit) (outside : p.readsOnly = false) :
    Localises p (inLoopScope (analyser limit .forStatement)) := by
  refine fun s hs => ((Assembled.loop outside).moment hs).and_stop (ensures_inLoopScope.mpr ?_)
  exact (h .forStatement (enterLoop s) (hs.beginLoop outside) trivial).imp (fun _ _ _ => trivial)
    fun _ _ located => located.congr rfl rfl

/-- A factor of a term. -/
theorem factor (h : LocalisesParts limit) (hs : Moment p s) :
    Ensures (analyser limit .factor)
      (fun τ t => Moment p t ∧ ∃ d, s.Reads .factor τ t d) Located s :=
  (readsTrees_analyser limit).factor.reads (keepsChain_factor limit)
    (composed_analyser limit .factor).steady (h.ensures_part hs .factor nofun (.inr rfl) trivial)

/-- A term of a sum, or behind an operator of a term. -/
theorem term (h : LocalisesParts limit) (hs : Moment p s) :
    Ensures (analyser limit .term)
      (fun τ t => Moment p t ∧ ∃ d, s.Reads .term τ t d) Located s :=
  (readsTrees_analyser limit).term.reads (keepsChain_term limit)
    (composed_analyser limit .term).steady (h.ensures_part hs .term nofun (.inr rfl) trivial)

/-- A sum begins behind `:=` or a parenthesis, on a fresh chain. -/
theorem sum (h : LocalisesParts limit) (hs : Moment p s)
    (opens : s.lookahead.type = .colonEqual ∨ s.lookahead.type = .leftParen) (next : Token)
    (input : TokenStream) :
    Ensures (analyser limit (.expression none)) (fun _ t => Moment p t) Located
      { s.advance next input with chain := .fresh } := by
  have told : (s.advance next input).trace = s.trace ++ [.terminal s.lookahead] :=
    s.trace_advance next input
  have taken : Moment p { s.advance next input with chain := .fresh } := hs.terminal rfl told
  exact h.ensures_part taken (.expression none) nofun (.inr rfl)
    ⟨rfl, s.trace, s.lookahead, opens, told⟩

/-- The value of an assignment may be a sum. -/
theorem rule_assignment (h : LocalisesParts limit) :
    Localises .assignmentStatement (rule (analyser limit) .assignmentStatement) := by
  refine (localises_accept _).bind fun target => fun s hs => ensures_bind.mpr ?_
  -- Behind `:=` the trace ends with the token that opens a sum.
  refine ensures_expect.mpr (ensures_accept_located hs fun next input opens taken => ?_)
  refine ensures_bind.mpr (ensures_lookahead.mpr ?_)
  split
  · refine ensures_bind.mpr (ensures_beginChain.mpr (ensures_bind.mpr ?_))
    refine (h.sum hs (.inl opens) next input).answer fun τ t ht => ?_
    exact ensures_bind.mpr (localises_declare _ t ht)
  · split
    · exact (localises_expect _).bind (fun _ => (localises_pure _).bind fun _ =>
        localises_declare _) _ taken
    · exact (localises_reject fun _ => rfl).bind (fun _ => localises_declare _) _ taken

/-- A factor may be a sum in parentheses. -/
theorem rule_factor (h : LocalisesParts limit) :
    Localises .factor (rule (analyser limit) .factor) := by
  refine localises_lookahead.bind fun t => ?_
  split
  · exact localises_requireDeclared.bind fun _ => (localises_expect _).bind fun _ =>
      localises_pure _
  · exact (localises_expect _).bind fun _ => localises_pure _
  · refine fun s hs => ensures_bind.mpr (ensures_expect.mpr ?_)
    refine ensures_accept_located hs fun next input opens _ => ?_
    -- The chain around the parentheses comes back, but a located mismatch takes no note of chains.
    refine ensures_bind.mpr (ensures_inFreshChain.mpr ?_)
    refine (h.sum hs (.inr opens) next input).imp (fun τ t ht => ?_) fun _ _ located =>
      located.congr rfl rfl
    exact (localises_expect _).bind (fun _ => localises_pure _) _ (ht.congr rfl rfl)
  · exact localises_reject fun _ => rfl

/-- An operand of `*` or `/` may be a string. -/
theorem rule_term (h : LocalisesParts limit)
    (hs : Moment .term (s.emit (.begin Production.term.name))) :
    Ensures (rule (analyser limit) .term) (fun _ _ => True) Located
      (s.emit (.begin Production.term.name)) := by
  refine ensures_bind.mpr (ensures_require_located (fun _ => rfl) ?_)
  refine ensures_bind.mpr ((h.factor hs).answer ?_)
  rintro σ t ⟨ht, f, left⟩
  refine ensures_bind.mpr (ensures_lookingAt.mpr ?_)
  split
  · next product =>
    have operator : t.lookahead.type = .star ∨ t.lookahead.type = .slash := by
      simpa using product
    refine ensures_bind.mpr (ensures_lookahead.mpr (ensures_bind.mpr ?_))
    refine ensures_accept_located ht fun next input _ taken => ?_
    have told : (t.advance next input).trace = s.trace ++ .begin Production.term.name :: f.trace ++
        [.terminal t.lookahead] := by
      simp [left.told]
    refine ensures_bind.mpr (ensures_lookahead.mpr (ensures_bind.mpr ?_))
    -- The factor was read before the operator, and nothing was read behind it yet.
    refine ensures_checkFactor_located taken (fun string => ?_) fun _ => ?_
    · have typed : f.valueType t.scopes = .string := by
        rw [left.scopes_eq, ← left.type_eq]
        exact string
      rw [told]
      exact .left operator left.derived left.symbol_eq typed
    refine ensures_bind.mpr (ensures_typeOf.mpr (ensures_bind.mpr ?_))
    refine ensures_checkFactor_located taken (fun string => ?_) fun plain => ?_
    · rw [told]
      exact .next operator left.derived left.symbol_eq (of_operandType_eq_string string)
    refine ensures_bind.mpr ((h.term taken).answer ?_)
    rintro ρ u ⟨hu, d, right⟩
    -- Now the whole term behind the operator was read, and its first token is no string.
    refine ensures_bind.mpr ?_
    refine ensures_checkFactor_located hu (fun string => ?_) fun _ => trivial
    have typed : d.valueType u.scopes = .string := by
      rw [right.scopes_eq, ← right.type_eq]
      exact string
    obtain ⟨rest, yield_eq⟩ := right.yield_eq
    have paren : next.type = .leftParen :=
      leftParen_of_string right.derived right.symbol_eq typed yield_eq (right.scopes_eq ▸ plain)
    rw [right.told, told, List.append_assoc, List.singleton_append]
    exact .right operator left.derived left.symbol_eq right.derived right.symbol_eq typed yield_eq
      paren
  · trivial

/-- A term of a sum may not fit the one before it. -/
theorem rule_expression (h : LocalisesParts limit) {join : Option Join}
    (hs : Moment .expression (s.emit (.begin Production.expression.name)))
    (prepared : s.AtTerm join) :
    Ensures (rule (analyser limit) (.expression join)) (fun _ _ => True) Located
      (s.emit (.begin Production.expression.name)) := by
  refine ensures_bind.mpr (ensures_beginTerm.mpr (ensures_bind.mpr ?_))
  refine ensures_require_located (fun _ => rfl) ?_
  have begun : Moment .expression
      { s.emit (.begin Production.expression.name) with chain := s.chain.enter } :=
    hs.congr rfl rfl
  refine ensures_bind.mpr ((h.term begun).answer ?_)
  rintro τ t ⟨ht, d, read⟩
  obtain ⟨rest, yield_eq⟩ := read.yield_eq
  have told : t.trace = s.trace ++ .begin Production.expression.name :: d.trace := by
    rw [read.told]
    change (s.emit _).trace ++ _ = _
    simp
  have chain : t.chain.record τ = s.chain.enter.record (d.valueType s.scopes) := by
    rw [read.chain_eq, read.type_eq]
    rfl
  -- The term is checked against the one before it when its type was taken.
  refine ensures_bind.mpr (ensures_recordTerm.mpr (ensures_bind.mpr ?_))
  have recorded : Moment .expression { t with chain := t.chain.record τ } := ht.congr rfl rfl
  refine (prepared.check recorded read.derived read.symbol_eq yield_eq read.scopes_eq chain
    told).answer ?_
  rintro - u ⟨hu, sum, behind⟩
  refine ensures_bind.mpr (ensures_lookingAt.mpr ?_)
  split
  · next more =>
    have operator : u.lookahead.type = .plus ∨ u.lookahead.type = .minus := by simpa using more
    refine ensures_bind.mpr (ensures_lookahead.mpr (ensures_bind.mpr ?_))
    refine ensures_accept_located hu fun next input _ taken => ?_
    refine ensures_bind.mpr (ensures_lookahead.mpr (ensures_bind.mpr ?_))
    have prepared : (Call.expression (some ⟨u.lookahead.type, next⟩)).Prepared
        (u.advance next input) :=
      behind.next operator next input
    exact (h.ensures_part taken (.expression _) nofun (.inr rfl) prepared).answer fun _ _ _ =>
      trivial
  · trivial

/-- The rule of every production, where it is prepared. -/
theorem ensures_rule (h : LocalisesParts limit) (c : Call)
    (hs : Moment c.production (s.emit (.begin c.production.name))) (prepared : c.Prepared s) :
    Ensures (rule (analyser limit) c) (fun _ _ => True) Located
      (s.emit (.begin c.production.name)) := by
  have located {c : Call} (localises : Localises c.production (rule (analyser limit) c))
      (hs : Moment c.production (s.emit (.begin c.production.name))) :
      Ensures (rule (analyser limit) c) (fun _ _ => True) Located
        (s.emit (.begin c.production.name)) :=
    (localises _ hs).answer fun _ _ _ => trivial
  -- Only assignments, sums, terms and factors have to do with operands. The other rules are put
  -- together from moves that no mismatch stops and from parts that localise.
  cases c with
  | statementPart =>
    refine located ?_ hs
    exact (localises_expect _).bind fun _ =>
      (h.part .statementList nofun (.inl rfl) fun _ => trivial).bind fun _ => localises_expect _
  | statementList =>
    refine located ((h.part .statement nofun (.inl rfl) fun _ => trivial).bind fun _ =>
      (localises_lookingAt _).bind fun more => ?_) hs
    split
    · refine (localises_expect _).bind fun _ => (localises_lookingAt _).bind fun again => ?_
      split
      · exact h.part .statementList nofun (.inl rfl) fun _ => trivial
      · exact localises_pure _
    · exact localises_pure _
  | statement =>
    refine located (localises_lookahead.bind fun t => ?_) hs
    split
    · exact h.part .assignmentStatement nofun (.inl rfl) fun _ => trivial
    · exact h.part .ifStatement nofun (.inl rfl) fun _ => trivial
    · exact h.part .whileStatement nofun (.inl rfl) fun _ => trivial
    · exact h.part .procedureStatement nofun (.inl rfl) fun _ => trivial
    · exact h.part .untilStatement nofun (.inl rfl) fun _ => trivial
    · exact h.loop rfl
    · exact localises_reject fun _ => rfl
  | assignmentStatement => exact located h.rule_assignment hs
  | ifStatement =>
    refine located ((localises_expect _).bind fun _ =>
      (h.part .condition nofun (.inl rfl) fun _ => trivial).bind fun _ =>
      (localises_expect _).bind fun _ =>
      (h.part .statementList nofun (.inl rfl) fun _ => trivial).bind fun _ =>
      localises_lookahead.bind fun t => ?_) hs
    split
    · exact (localises_expect _).bind fun _ => localises_expect _
    · exact (localises_expect _).bind fun _ =>
        (h.part .statementList nofun (.inl rfl) fun _ => trivial).bind fun _ =>
        (localises_expect _).bind fun _ => localises_expect _
    · exact localises_reject fun _ => rfl
  | whileStatement =>
    refine located ?_ hs
    exact (localises_expect _).bind fun _ =>
      (h.part .condition nofun (.inl rfl) fun _ => trivial).bind fun _ =>
      (localises_expect _).bind fun _ =>
      (h.part .statementList nofun (.inl rfl) fun _ => trivial).bind fun _ =>
      (localises_expect _).bind fun _ => localises_expect _
  | untilStatement =>
    refine located ?_ hs
    exact (localises_expect _).bind fun _ =>
      (h.part .statementList nofun (.inl rfl) fun _ => trivial).bind fun _ =>
      (localises_expect _).bind fun _ => h.part .condition nofun (.inl rfl) fun _ => trivial
  | forStatement =>
    have assignment := h.part (p := .forStatement) .assignmentStatement nofun (.inl rfl)
      fun _ => trivial
    refine located ?_ hs
    exact (localises_expect _).bind fun _ => (localises_expect _).bind fun _ =>
      assignment.bind fun _ => (localises_expect _).bind fun _ =>
      (h.part .condition nofun (.inl rfl) fun _ => trivial).bind fun _ =>
      (localises_expect _).bind fun _ => assignment.bind fun _ =>
      (localises_expect _).bind fun _ => (localises_expect _).bind fun _ =>
      (h.part .statementList nofun (.inl rfl) fun _ => trivial).bind fun _ =>
      (localises_expect _).bind fun _ => localises_expect _
  | procedureStatement =>
    refine located ?_ hs
    exact (localises_expect _).bind fun _ => (localises_expect _).bind fun _ =>
      (localises_expect _).bind fun _ =>
      (h.part .argumentList nofun (.inl rfl) fun _ => trivial).bind fun _ => localises_expect _
  | argumentList =>
    refine located (localises_requireDeclared.bind fun _ => (localises_expect _).bind fun _ =>
      (localises_lookingAt _).bind fun more => ?_) hs
    split
    · exact (localises_expect _).bind fun _ =>
        h.part .argumentList nofun (.inr rfl) fun _ => trivial
    · exact localises_pure _
  | condition =>
    refine located (localises_requireDeclared.bind fun _ => (localises_expect _).bind fun _ =>
      (h.part .conditionalOperator nofun (.inr rfl) fun _ => trivial).bind fun _ =>
      localises_lookahead.bind fun t => ?_) hs
    split
    · exact localises_requireDeclared.bind fun _ => localises_expect _
    · exact localises_expect _
    · exact localises_expect _
    · exact localises_reject fun _ => rfl
  | conditionalOperator =>
    refine located ?_ hs
    exact (localises_require _ fun _ => rfl).bind fun _ => localises_lookahead.bind fun t =>
      localises_expect _
  | expression join => exact h.rule_expression hs prepared
  | term => exact h.rule_term hs
  | factor => exact located h.rule_factor hs

end LocalisesParts

/-- Every production that is stopped by a mismatch tells of its misfit, under every limit. -/
theorem localises_analyser (limit : Nat) : LocalisesParts limit := by
  induction limit with
  | zero => exact fun c s _ _ => nofun
  | succ limit ih =>
    intro c s hs prepared
    rw [analyser_succ, ensures_within]
    exact (ih.ensures_rule c hs prepared).imp (fun _ _ _ => trivial) fun stop t located =>
      located.through c.production.name

/-- A program that is stopped by a mismatch tells of its misfit. -/
theorem localises_program (limit : Nat) (first : Token) (input : TokenStream) :
    Ensures (program limit) (fun _ _ => True) Located (.start first input) := by
  have begun : Moment .statementPart
      ((AnalyserState.start first input).emit (.begin Production.statementPart.name)) :=
    Moment.begin ⟨.start first input, .nil⟩ nofun (.inl rfl)
  refine ensures_bind.mpr ((localises_analyser limit .statementPart _ begun trivial).answer ?_)
  exact fun _ _ _ => ensures_require_located (fun _ => rfl) trivial

/-! ## Faults of an analysis -/

/-- There is one first error. -/
theorem ErrorFree.eq_of_append {es es' fs fs' : List Event} {token token' : Token} {f f' : Fault}
    (h : ErrorFree es) (h' : ErrorFree es')
    (same : es ++ .error token f :: fs = es' ++ .error token' f' :: fs') :
    es = es' ∧ token = token' := by
  induction es generalizing es' with
  | nil =>
    cases es' with
    | nil => exact ⟨rfl, (Event.error.inj (List.cons.inj same).1).1⟩
    | cons e es' => exact absurd ((List.cons.inj same).1 ▸ rfl) (h' e List.mem_cons_self)
  | cons e es ih =>
    cases es' with
    | nil => exact absurd ((List.cons.inj same).1 ▸ rfl) (h e List.mem_cons_self)
    | cons e' es' =>
      obtain ⟨rfl, rest⟩ := List.cons.inj same
      have next := ih (List.forall_mem_cons.mp h).2 (List.forall_mem_cons.mp h').2 rest
      exact ⟨congrArg (e :: ·) next.1, next.2⟩

/-- No token is accepted on the way out. -/
theorem accepted_unwinding (lookahead : Token) (stop : Stop) (productions : List String) :
    accepted (unwinding lookahead stop productions) = [] := by
  induction productions generalizing stop with
  | nil => rfl
  | cons p productions ih => simp [unwinding, ih]

/-- The fault of an analysis of a stream was told of behind `before`, at `token`. No token was
accepted from then on, and `lookahead` is the first one that was not. -/
structure ReportedAt (stream : TokenStream) (a : Analysis Unit) (f : Fault) (before : List Event)
    (token lookahead : Token) : Prop where
  told : ∃ after, a.events.toList = before ++ .error token (.ofLink f.root) :: after
  errorFree : ErrorFree before
  accepted_eq : accepted a.events.toList = accepted before
  lookahead_eq : a.lookahead = some lookahead
  front_eq : stream.front ((accepted before).length + 1) = (accepted before ++ [lookahead]).map .ok
  position_eq : f.root.position = token.position

/-- What is no mismatch is reported at the lookahead, the first token that was not accepted. A
mismatch is reported at the token behind an accepted operator that its message quotes, and the
trace before it tells that the operands of this operator do not fit: for `+` and `-` it is the first
operator of its sum that does not suit the terms around it; for `*` and `/` the factor before it is
a string, or the token behind it is, or the term behind it, which then begins with a parenthesis. -/
theorem fault_is_localised {stream : TokenStream} {f : Fault}
    (h : (analyseWithin limit stream).outcome = .error (.fault f)) :
    ∃ before token lookahead,
      ReportedAt stream (analyseWithin limit stream) f before token lookahead ∧
      ((f.root.kind = .parse ∨ f.root.kind = .undeclared) ∧ token = lookahead ∨
        f.root.kind = .mismatch ∧ ∃ op m,
          Misfit (replay .empty before).scopes lookahead before op token m ∧
          f.root.message = m.message ∧ op.type.isArithmetic ∧
          (∃ front rest, accepted before ++ [lookahead] = front ++ op :: token :: rest) ∧
          ∃ text front back, op.type.spelling? = some text ∧
            f.root.message = front ++ "'" ++ text ++ "'" ++ back) := by
  obtain ⟨first, input, t, pulled, run, left⟩ := exists_run_of_fault h
  obtain ⟨before, token, cause, productions, unwinds, stands, trailing⟩ := exists_unwinding run
  have told : ToldOf (analyseWithin limit stream) f before token t.lookahead := by
    rw [left]
    exact unwinds.toldOf trailing
  have events : (analyseWithin limit stream).events.toList = t.trace := by
    rw [left]
    rfl
  have taken : t.accepted = accepted before := by
    rw [AnalyserState.accepted, unwinds.trace_eq, accepted_append, accepted_unwinding]
    simp
  have root : f.root = cause.link token := unwinds.root_eq
  refine ⟨before, token, t.lookahead, ⟨⟨_, told.events_eq⟩, told.errorFree, ?_, told.lookahead_eq,
    ?_, ?_⟩, ?_⟩
  · rw [events]
    exact taken
  · have reaches : Reaches (.start first input) t := ((composed_program _).steady _).of_error run
    have passes : Passes (first, input) (accepted before) t.place :=
      reaches.passes (by rw [taken, AnalyserState.accepted_start, List.nil_append])
    exact passes.front pulled
  · rw [root]
    rfl
  · by_cases kind : f.root.kind = .mismatch
    · refine .inr ⟨kind, ?_⟩
      obtain ⟨before', after, op, token', m, told', errorFree, root', misfit⟩ :=
        (localises_program limit first input).of_error run f rfl kind
      -- Both tell of the first error of the trace.
      have same := told.events_eq.symm.trans (events.trans told')
      obtain ⟨rfl, rfl⟩ := told.errorFree.eq_of_append errorFree same
      have message : f.root.message = m.message := by
        rw [root']
        rfl
      exact ⟨op, m, misfit, message, misfit.isArithmetic, misfit.accepted_eq,
        message ▸ misfit.quotes⟩
    · refine .inl ⟨?_, stands.resolve_left fun he => kind (root ▸ he)⟩
      rw [root] at kind ⊢
      cases cause with
      | expected | expectedRelational | invalid | trailing => exact .inl rfl
      | undeclared => exact .inr rfl
      | mismatch m => exact absurd rfl kind

/-- A sum whose second operator has a number before it and a string in parentheses behind it. -/
def mixedTerms : TokenStream :=
  .ofList ([⟨.beginKeyword, "begin", ⟨1, 1⟩⟩, ⟨.identifier, "s", ⟨1, 7⟩⟩,
    ⟨.colonEqual, ":=", ⟨1, 9⟩⟩, ⟨.stringLiteral, "x", ⟨1, 12⟩⟩, ⟨.semicolon, ";", ⟨1, 15⟩⟩,
    ⟨.identifier, "n", ⟨2, 1⟩⟩, ⟨.colonEqual, ":=", ⟨2, 3⟩⟩, ⟨.numberLiteral, "1", ⟨2, 6⟩⟩,
    ⟨.plus, "+", ⟨2, 8⟩⟩, ⟨.numberLiteral, "2", ⟨2, 10⟩⟩, ⟨.plus, "+", ⟨2, 12⟩⟩,
    ⟨.leftParen, "(", ⟨2, 14⟩⟩, ⟨.identifier, "s", ⟨2, 15⟩⟩, ⟨.rightParen, ")", ⟨2, 16⟩⟩,
    ⟨.endKeyword, "end", ⟨3, 1⟩⟩].map .ok)

/-- What the analysis says about it, at the parenthesis. -/
def mixedTermsFault : Fault :=
  ⟨passageLink "StatementPart" ⟨.endKeyword, "end", ⟨3, 1⟩⟩,
    ["StatementList", "StatementList", "Statement", "AssignmentStatement", "Expression",
      "Expression", "Expression"].map (passageLink · ⟨.endKeyword, "end", ⟨3, 1⟩⟩) ++
    [⟨.mismatch, "type mismatch: '+' requires operands of the same type, got NUMBER and STRING",
      ⟨2, 14⟩⟩]⟩

theorem fault_is_localised_mixedTerms :
    (analyseWithin 20 mixedTerms).outcome = .error (.fault mixedTermsFault) ∧
      mixedTermsFault.root.kind = .mismatch ∧
      ∃ before token lookahead,
        ReportedAt mixedTerms (analyseWithin 20 mixedTerms) mixedTermsFault before token
          lookahead ∧
        ∃ op m, Misfit (replay .empty before).scopes lookahead before op token m ∧
          mixedTermsFault.root.message = m.message := by
  have ends : (analyseWithin 20 mixedTerms).outcome = .error (.fault mixedTermsFault) := by
    decide +kernel
  obtain ⟨before, token, lookahead, reported, ⟨kind, -⟩ | ⟨kind, op, m, misfit, message, -⟩⟩ :=
    fault_is_localised ends
  · cases kind with
    | inl parse => cases parse
    | inr undeclared => cases undeclared
  · exact ⟨ends, kind, before, token, lookahead, reported, op, m, misfit, message⟩

end BlockLang
