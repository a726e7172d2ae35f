import BlockLang.Proofs.Run.Assembled
import BlockLang.Proofs.Scoping.Moments

/-!
# Assignments as a whole

What stands for values changes no scope, however it ends, and neither does a call of a procedure. An
assignment changes the scopes only at its very end, where nothing can fail any more: either it
declares its target, once, or the scopes are what they were, whether its value was refused, the
stream broke, or the limit was reached.

## Main definitions

* `AnalyserState.Untouched s t`: no variable was declared or dropped between two states
* `AnalyserState.Declares s v t`: one variable was declared, and this was told last
* `Analyser.SparesVariables m`: the move leaves all variables alone, however it ends

## Main results

* `sparesVariables_analyser`: what stands for values leaves all variables alone
* `assignment_is_atomic`: an assignment declares its target at its end or leaves all as it was
-/

namespace BlockLang

open Analyser

variable {α β : Type} {m body : Analyser α} {f : α → Analyser β} {s t u : AnalyserState}
  {p : Production} {call : Callee} {e : Event} {v : Variable}

/-- The entry does not tell of a variable that is declared or dropped. -/
def Event.Silent (e : Event) : Prop := e.kind ≠ .add ∧ e.kind ≠ .remove

/-! ## Untouched variables -/

namespace AnalyserState

/-- From the first state to the second, no scope has changed, and no variable was told of. -/
structure Untouched (s t : AnalyserState) : Prop where
  scopes_eq : t.scopes = s.scopes
  told : ∃ es, t.trace = s.trace ++ es ∧ ∀ e ∈ es, e.Silent

namespace Untouched

theorem of_same (hs : t.scopes = s.scopes) (ht : t.trace = s.trace) : s.Untouched t :=
  ⟨hs, [], by simpa using ht, List.forall_mem_nil _⟩

theorem trans (h : s.Untouched t) (h' : t.Untouched u) : s.Untouched u := by
  obtain ⟨hs, es, ht, silent⟩ := h
  obtain ⟨hs', es', ht', silent'⟩ := h'
  refine ⟨hs'.trans hs, es ++ es', by rw [ht', ht, List.append_assoc], fun e he => ?_⟩
  exact (List.mem_append.mp he).elim (silent e) (silent' e)

theorem tell (h : s.Untouched t) (he : e.Silent) : s.Untouched (t.emit e) :=
  h.trans ⟨rfl, [e], t.trace_emit e, List.forall_mem_singleton.mpr he⟩

/-- A production that is left by a stop tells of no variable. -/
theorem abandon (h : s.Untouched t) (name : String) (stop : Stop) :
    s.Untouched (t.abandon name stop) :=
  h.trans ⟨rfl, stop.farewell name t.lookahead, t.trace_abandon name stop, by
    cases stop <;> simp [Stop.farewell, Event.Silent, Event.kind]⟩

end Untouched

theorem untouched_begin (s : AnalyserState) (name : String) : s.Untouched (s.emit (.begin name)) :=
  (Untouched.of_same rfl rfl).tell ⟨nofun, nofun⟩

/-- A variable was declared in the innermost open scope, and this is the last that was told; nothing
else was told of a variable. -/
structure Declares (s : AnalyserState) (v : Variable) (t : AnalyserState) : Prop where
  scopes_eq : t.scopes = s.scopes.declare v.identifier v
  told : ∃ es, t.trace = s.trace ++ es ++ [.add v] ∧ ∀ e ∈ es, e.Silent

theorem Untouched.declares (h : s.Untouched t) (v : Variable) :
    s.Declares v ({ t with scopes := t.scopes.declare v.identifier v }.emit (.add v)) := by
  obtain ⟨hs, es, ht, silent⟩ := h
  refine ⟨?_, es, ?_, silent⟩
  · exact congrArg (Scopes.declare · v.identifier v) hs
  · rw [trace_emit, ← ht]
    rfl

theorem Untouched.trans_declares (h : s.Untouched t) (h' : t.Declares v u) : s.Declares v u := by
  obtain ⟨hs, es, ht, silent⟩ := h
  obtain ⟨hs', es', ht', silent'⟩ := h'
  refine ⟨hs' ▸ hs ▸ rfl, es ++ es', by simp [ht', ht], fun e he => ?_⟩
  exact (List.mem_append.mp he).elim (silent e) (silent' e)

end AnalyserState

/-! ## Moves that leave variables alone -/

namespace Analyser

/-- The move leaves all variables alone, whether it answers or stops. -/
def SparesVariables (m : Analyser α) : Prop :=
  ∀ s, Ensures m (fun _ t => s.Untouched t) (fun _ t => s.Untouched t) s

theorem sparesVariables_of_same
    (h : ∀ s, Ensures m (fun _ t => t.scopes = s.scopes ∧ t.trace = s.trace)
      (fun _ t => t.scopes = s.scopes ∧ t.trace = s.trace) s) : SparesVariables m :=
  fun s => (h s).imp (fun _ _ same => .of_same same.1 same.2) fun _ _ same => .of_same same.1 same.2

theorem sparesVariables_pure (a : α) : SparesVariables (pure a : Analyser α) :=
  sparesVariables_of_same fun _ => ⟨rfl, rfl⟩

theorem sparesVariables_lookahead : SparesVariables lookahead :=
  sparesVariables_of_same fun _ => ⟨rfl, rfl⟩

theorem sparesVariables_beginChain : SparesVariables beginChain :=
  sparesVariables_of_same fun _ => ⟨rfl, rfl⟩

theorem SparesVariables.bind (hm : SparesVariables m) (hf : ∀ a, SparesVariables (f a)) :
    SparesVariables (m >>= f) := fun s =>
  ensures_bind.mpr ((hm s).answer fun a t ht =>
    (hf a t).imp (fun _ _ => ht.trans) fun _ _ => ht.trans)

theorem sparesVariables_rejectAt (token : Token) (cause : Cause) :
    SparesVariables (rejectAt token cause : Analyser α) := fun _ =>
  ensures_rejectAt.mpr ((AnalyserState.Untouched.of_same rfl rfl).tell ⟨nofun, nofun⟩)

theorem sparesVariables_reject (cause : Token → Cause) :
    SparesVariables (reject cause : Analyser α) := fun s =>
  ensures_reject.mpr (sparesVariables_rejectAt _ _ s)

/-- A token is taken or refused without a word about a variable, also if the stream breaks. -/
theorem sparesVariables_accept (wanted : TokenType) : SparesVariables (accept wanted) := by
  intro s
  have told : s.Untouched (s.emit (.terminal s.lookahead)) :=
    (AnalyserState.Untouched.of_same rfl rfl).tell ⟨nofun, nofun⟩
  refine ensures_accept (fun next input _ _ => ?_) (fun e input _ _ => ?_) fun _ => ?_
  · exact told.trans (.of_same rfl rfl)
  · exact told.trans (.of_same rfl rfl)
  · exact sparesVariables_rejectAt _ _ s

theorem sparesVariables_expect (wanted : TokenType) : SparesVariables (expect wanted) :=
  (sparesVariables_accept wanted).bind fun _ => sparesVariables_pure _

theorem sparesVariables_requireDeclared : SparesVariables requireDeclared := by
  refine fun s => ensures_requireDeclared.mpr ?_
  split
  · split
    · exact .of_same rfl rfl
    · exact sparesVariables_rejectAt _ _ s
  · exact .of_same rfl rfl

theorem sparesVariables_checkSum (join : Option Join) : SparesVariables (checkSum join) := by
  refine fun s => ensures_checkSum.mpr ?_
  split
  · exact sparesVariables_rejectAt _ _ s
  · exact .of_same rfl rfl

theorem SparesVariables.inFreshChain (h : SparesVariables body) :
    SparesVariables (inFreshChain body) := by
  refine fun s => ensures_inFreshChain.mpr ((h { s with chain := .fresh }).imp ?_ ?_)
  · exact fun a t ht => ⟨ht.scopes_eq, ht.told⟩
  · exact fun stop t ht => ⟨ht.scopes_eq, ht.told⟩

theorem SparesVariables.within (h : SparesVariables body) (p : Production) :
    SparesVariables (within p body) := by
  refine fun s => ensures_within.mpr ((h (s.emit (.begin p.name))).imp ?_ ?_)
  · exact fun a t ht => ((s.untouched_begin p.name).trans ht).tell ⟨nofun, nofun⟩
  · exact fun stop t ht => ((s.untouched_begin p.name).trans ht).abandon p.name stop

end Analyser

/-- What the rule of a production that stands for values is made of leaves all variables alone. -/
theorem Assembled.sparesVariables (h : Assembled call p m) (hp : p.readsOnly)
    (parts : ∀ c : Call, c.production.readsOnly → SparesVariables (call c)) :
    SparesVariables m := by
  -- Induction on how the move is put together: only declarations and loops touch variables.
  induction h with
  | pure | lookahead | lookingAt | typeOf | beginChain | beginTerm | recordTerm =>
    exact sparesVariables_of_same fun _ => ⟨rfl, rfl⟩
  | bind _ _ ihm ihf => exact ihm.bind ihf
  | accept wanted _ => exact sparesVariables_accept wanted
  | acceptSeen _ _ _ ihf ihg =>
    refine .bind (sparesVariables_of_same fun _ => ⟨rfl, rfl⟩) fun seen => ?_
    cases seen
    · exact ihg
    · exact sparesVariables_lookahead.bind fun t => (sparesVariables_accept _).bind ihf
  | use _ _ ihf =>
    exact sparesVariables_requireDeclared.bind fun t =>
      (sparesVariables_expect .identifier).bind fun _ => ihf t
  | refuse => exact sparesVariables_reject _
  | mismatch token m => exact sparesVariables_rejectAt token _
  | declare v assignment =>
    subst assignment
    cases hp
  | checkSum join => exact sparesVariables_checkSum join
  | inFreshChain _ ih => exact ih.inFreshChain
  | part c _ inside =>
    refine parts c (inside.resolve_left fun outside => ?_)
    cases hp.symm.trans outside
  | loop outside => cases hp.symm.trans outside

/-- What stands for values leaves all variables alone, under every limit. -/
theorem sparesVariables_analyser (limit : Nat) (c : Call) (hc : c.production.readsOnly) :
    SparesVariables (analyser limit c) := by
  induction limit generalizing c with
  | zero => exact fun _ => .of_same rfl rfl
  | succ limit ih =>
    exact ((assembled_rule (analyser limit) c).sparesVariables hc ih).within c.production

/-- A call of a procedure leaves all variables alone: it names the procedure, which is no variable,
and its arguments stand for values. -/
theorem sparesVariables_procedureStatement (limit : Nat) :
    SparesVariables (analyser limit .procedureStatement) := by
  cases limit with
  | zero => exact fun _ => .of_same rfl rfl
  | succ limit =>
    refine SparesVariables.within ?_ .procedureStatement
    refine (sparesVariables_expect .callKeyword).bind fun _ => ?_
    refine (sparesVariables_expect .identifier).bind fun _ => ?_
    refine (sparesVariables_expect .leftParen).bind fun _ => ?_
    refine (sparesVariables_analyser limit .argumentList rfl).bind fun _ => ?_
    exact sparesVariables_expect .rightParen

/-! ## Assignments -/

/-- The move declares a target as its last, or it leaves all variables alone. -/
def Analyser.DeclaresLast (target : Token) (m : Analyser Unit) : Prop :=
  ∀ s, Ensures m (fun _ t => ∃ τ, s.Declares ⟨target.value, τ, target.position⟩ t)
    (fun _ t => s.Untouched t) s

theorem declaresLast_declare (target : Token) (τ : ValueType) :
    DeclaresLast target (declare ⟨target.value, τ, target.position⟩) := fun _ =>
  ensures_declare.mpr ⟨τ, (AnalyserState.Untouched.of_same rfl rfl).declares _⟩

/-- The same seen from a state before, as long as no variable was touched in between. -/
theorem Analyser.DeclaresLast.since {target : Token} {m : Analyser Unit}
    (h : DeclaresLast target m) (ht : s.Untouched t) :
    Ensures m (fun _ u => ∃ τ, s.Declares ⟨target.value, τ, target.position⟩ u)
      (fun _ u => s.Untouched u) t := by
  refine (h t).imp (fun _ u hu => ?_) fun _ _ => ht.trans
  obtain ⟨τ, declares⟩ := hu
  exact ⟨τ, ht.trans_declares declares⟩

/-- What leaves all variables alone may come before. -/
theorem Analyser.SparesVariables.declaresLast {target : Token} {f : α → Analyser Unit}
    (hm : SparesVariables m) (hf : ∀ a, DeclaresLast target (f a)) :
    DeclaresLast target (m >>= f) := fun s =>
  ensures_bind.mpr ((hm s).answer fun a _ ht => (hf a).since ht)

/-- Behind the sign of an assignment its target is declared by the last move, whatever the value is,
or all variables are left alone. -/
theorem declaresLast_value (limit : Nat) (target : Token) : DeclaresLast target (do
    let first ← lookahead
    let type ←
      if first.type.startsOperand then do
        beginChain
        let t ← analyser limit (.expression none)
        pure (if first.type = .numberLiteral then .number else t)
      else if first.type = .stringLiteral then do
        expect .stringLiteral
        pure .string
      else reject .invalid
    declare ⟨target.value, type, target.position⟩) := by
  refine sparesVariables_lookahead.declaresLast fun first => ?_
  split
  · refine sparesVariables_beginChain.declaresLast fun _ => ?_
    refine (sparesVariables_analyser limit (.expression none) rfl).declaresLast fun τ => ?_
    exact (sparesVariables_pure _).declaresLast fun τ => declaresLast_declare _ τ
  · split
    · refine (sparesVariables_expect .stringLiteral).declaresLast fun _ => ?_
      exact (sparesVariables_pure _).declaresLast fun τ => declaresLast_declare _ τ
    · exact (sparesVariables_reject _).declaresLast fun τ => declaresLast_declare _ τ

/-- The rule of an assignment takes its target, and declares it as its last move or leaves all
variables alone. -/
theorem ensures_rule_assignment (limit : Nat) (s : AnalyserState) :
    Ensures (rule (analyser limit) .assignmentStatement)
      (fun _ t => s.lookahead.type = .identifier ∧
        ∃ τ, s.Declares ⟨s.lookahead.value, τ, s.lookahead.position⟩ t)
      (fun _ t => s.Untouched t) s := by
  refine ensures_bind_of (sparesVariables_accept .identifier s) fun token t taken ht => ?_
  obtain ⟨isName, rfl, -⟩ := accept_eq_ok_iff.mp taken
  refine (DeclaresLast.since ?_ ht).answer fun _ u hu => ⟨isName, hu⟩
  exact (sparesVariables_expect .colonEqual).declaresLast fun _ => declaresLast_value limit _

/-- An assignment that ends well has declared its target, once and in the innermost open scope, and
has told so last before its end. Any other leaves the scopes as they were and tells of no variable.
Sums, terms, factors, conditions, comparisons, arguments and calls of procedures leave the scopes as
they were and tell of no variable, however they end. -/
theorem assignment_is_atomic (limit : Nat) (s : AnalyserState) :
    Ensures (analyser limit .assignmentStatement)
      (fun _ t => s.lookahead.type = .identifier ∧ ∃ v : Variable,
        v.identifier = s.lookahead.value ∧ v.position = s.lookahead.position ∧
        t.scopes = s.scopes.declare s.lookahead.value v ∧
        ∃ es, t.trace = s.trace ++ es ++ [.add v, .finish "AssignmentStatement"] ∧
          ∀ e ∈ es, e.Silent)
      (fun _ t => s.Untouched t) s ∧
    ∀ c : Call, c.production ∈ [.expression, .term, .factor, .condition, .conditionalOperator,
        .argumentList, .procedureStatement] →
      Ensures (analyser limit c) (fun _ t => s.Untouched t) (fun _ t => s.Untouched t) s := by
  constructor
  · cases limit with
    | zero => exact .of_same rfl rfl
    | succ limit =>
      have began := s.untouched_begin Production.assignmentStatement.name
      refine ensures_within.mpr ((ensures_rule_assignment limit _).imp ?_ ?_)
      · rintro _ t ⟨isName, τ, declares⟩
        obtain ⟨scopes_eq, es, told, silent⟩ := began.trans_declares declares
        refine ⟨isName, _, rfl, rfl, scopes_eq, es, ?_, silent⟩
        rw [AnalyserState.trace_emit, told, List.append_assoc]
        rfl
      · exact fun stop t ht => (began.trans ht).abandon Production.assignmentStatement.name stop
  · intro c hc
    cases c with
    | procedureStatement => exact sparesVariables_procedureStatement limit s
    | expression | term | factor | condition | conditionalOperator | argumentList =>
      exact sparesVariables_analyser limit _ rfl s
    | _ => exact absurd hc (by decide)

/-- The analyser in front of `x := x + 1`, in a loop that declares the name, where the stream breaks
behind the value. -/
def beforeBreak : AnalyserState where
  lookahead := ⟨.identifier, "x", ⟨2, 3⟩⟩
  input := .ofList [.ok ⟨.colonEqual, ":=", ⟨2, 5⟩⟩, .ok ⟨.identifier, "x", ⟨2, 8⟩⟩,
    .ok ⟨.plus, "+", ⟨2, 10⟩⟩, .ok ⟨.numberLiteral, "1", ⟨2, 12⟩⟩,
    .error ⟨"invalid character", ⟨2, 13⟩⟩]
  scopes := Scopes.empty.enter.declare "x" ⟨"x", .number, ⟨1, 6⟩⟩
  chain := .fresh
  events := #[]
  notices := #[]

theorem assignment_is_atomic_beforeBreak :
    (∃ e t, analyser 9 .assignmentStatement beforeBreak = .error (.lexical e) t ∧
      t.lookahead.type = .numberLiteral ∧ beforeBreak.Untouched t) ∧
    Call.factor.production ∈ [.expression, .term, .factor, .condition, .conditionalOperator,
      .argumentList, .procedureStatement] ∧
    ∃ τ t, analyser 9 .factor beforeBreak = .ok τ t ∧ beforeBreak.Untouched t := by
  have listed : Call.factor.production ∈ [.expression, .term, .factor, .condition,
      .conditionalOperator, .argumentList, .procedureStatement] := by decide
  have breaks : (Analysis.ofResult (analyser 9 .assignmentStatement beforeBreak)).outcome =
      .error (.lexical ⟨"invalid character", ⟨2, 13⟩⟩) := by decide +kernel
  have last : (Analysis.ofResult (analyser 9 .assignmentStatement beforeBreak)).lookahead =
      some ⟨.numberLiteral, "1", ⟨2, 12⟩⟩ := by decide +kernel
  have reads : (Analysis.ofResult (analyser 9 .factor beforeBreak)).outcome = .ok .number := by
    decide +kernel
  obtain ⟨t, broken⟩ := outcome_ofResult_eq_error_iff.mp breaks
  obtain ⟨u, read⟩ := outcome_ofResult_eq_ok_iff.mp reads
  rw [broken] at last
  -- The state is left to the run: written out, what is ensured would be evaluated.
  have left := (assignment_is_atomic 9 _).1.of_error broken
  have untouched := ((assignment_is_atomic 9 _).2 .factor listed).of_ok read
  exact ⟨⟨_, t, broken, congrArg Token.type (Option.some.inj last), left⟩, listed, _, u, read,
    untouched⟩

end BlockLang
