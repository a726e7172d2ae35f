import BlockLang.Analysis

/-!
# Outcomes of moves

A move answers or stops. `Ensures m Q E s` says what holds after the move `m` from the state `s`:
`Q` of the answer and the state if it answers, `E` of the stop and the state if it does not. There
is one law for each move and one for each way of putting moves together, so that what a production
does is read off its rule.

## Main definitions

* `Analyser.Ensures`: what holds after a move
* `Analyser.endState`: the state in which a result leaves the analyser
* `AnalyserState.trace`: the trace of a state as a list
* `AnalyserState.advance`, `AnalyserState.abandon`: the state after a token was taken, and the one
  after a production was left by a stop
* `Cause.link`, `passageLink`, `Stop.through`: the links of a chain

## Main results

* `Analyser.ensures_bind`: two moves in turn
* `Analyser.ensures_accept`, `Analyser.ensures_rejectAt`: a token is taken or refused
* `Analyser.ensures_within`: a production around a move
-/

namespace BlockLang

/-- The link of a cause at a token. -/
def Cause.link (cause : Cause) (token : Token) : FaultLink :=
  ⟨cause.kind, cause.message, token.position⟩

/-- The link of a production that a fault passed through. -/
def passageLink (p : String) (lookahead : Token) : FaultLink :=
  ⟨.passage p, "error caught in " ++ p, lookahead.position⟩

/-- What becomes of a stop when it leaves a production: a fault takes the production along. -/
def Stop.through (p : String) (lookahead : Token) : Stop → Stop
  | .fault f => .fault (f.within (passageLink p lookahead))
  | stop => stop

/-- What a production that is left by a stop adds to the trace. -/
def Stop.farewell (p : String) (lookahead : Token) : Stop → List Event
  | .fault f => [.error lookahead (f.within (passageLink p lookahead)), .finish p]
  | _ => [.finish p]

namespace AnalyserState

/-- The trace so far. -/
def trace (s : AnalyserState) : List Event := s.events.toList

/-- The state after the lookahead was taken. -/
def advance (s : AnalyserState) (next : Token) (input : TokenStream) : AnalyserState :=
  { s.emit (.terminal s.lookahead) with lookahead := next, input := input }

/-- The state after a production was left by a stop. -/
def abandon (s : AnalyserState) (p : String) (stop : Stop) : AnalyserState :=
  { s with events := s.events ++ stop.farewell p s.lookahead }

@[simp] theorem trace_emit (s : AnalyserState) (e : Event) : (s.emit e).trace = s.trace ++ [e] := by
  simp [trace, emit]

@[simp] theorem lookahead_emit (s : AnalyserState) (e : Event) :
    (s.emit e).lookahead = s.lookahead := rfl

@[simp] theorem lookahead_abandon (s : AnalyserState) (p : String) (stop : Stop) :
    (s.abandon p stop).lookahead = s.lookahead := rfl

@[simp] theorem scopes_emit (s : AnalyserState) (e : Event) : (s.emit e).scopes = s.scopes := rfl

@[simp] theorem scopes_abandon (s : AnalyserState) (p : String) (stop : Stop) :
    (s.abandon p stop).scopes = s.scopes := rfl

@[simp] theorem trace_advance (s : AnalyserState) (next : Token) (input : TokenStream) :
    (s.advance next input).trace = s.trace ++ [.terminal s.lookahead] := by
  simp [trace, advance, emit]

@[simp] theorem trace_abandon (s : AnalyserState) (p : String) (stop : Stop) :
    (s.abandon p stop).trace = s.trace ++ stop.farewell p s.lookahead := by
  simp [trace, abandon]

@[simp] theorem trace_enterLoop (s : AnalyserState) : (Analyser.enterLoop s).trace = s.trace := rfl

theorem trace_leaveLoop (s : AnalyserState) :
    ∃ removed : List Variable,
      (Analyser.leaveLoop s).trace = s.trace ++ removed.map Event.remove := by
  unfold Analyser.leaveLoop
  dsimp only
  split
  · exact ⟨[], by simp⟩
  · next removed scopes h => exact ⟨removed, by simp [trace, notify]⟩

@[simp] theorem lookahead_leaveLoop (s : AnalyserState) :
    (Analyser.leaveLoop s).lookahead = s.lookahead := by
  unfold Analyser.leaveLoop
  dsimp only
  split <;> rfl

@[simp] theorem input_leaveLoop (s : AnalyserState) :
    (Analyser.leaveLoop s).input = s.input := by
  unfold Analyser.leaveLoop
  dsimp only
  split <;> rfl

end AnalyserState

namespace Analyser

variable {α β : Type} {m : Analyser α} {f : α → Analyser β} {Q Q' : α → AnalyserState → Prop}
  {R : β → AnalyserState → Prop} {E E' : Stop → AnalyserState → Prop} {s : AnalyserState}

/-- After the move from `s`, `Q` holds of an answer and `E` of a stop. -/
def Ensures (m : Analyser α) (Q : α → AnalyserState → Prop) (E : Stop → AnalyserState → Prop)
    (s : AnalyserState) : Prop :=
  match m s with
  | .ok a t => Q a t
  | .error stop t => E stop t

theorem Ensures.imp (h : Ensures m Q E s) (hQ : ∀ a t, Q a t → Q' a t)
    (hE : ∀ stop t, E stop t → E' stop t) : Ensures m Q' E' s := by
  unfold Ensures at *
  split at h
  · exact hQ _ _ h
  · exact hE _ _ h

/-- A weaker claim about the answer. -/
theorem Ensures.answer (h : Ensures m Q E s) (hQ : ∀ a t, Q a t → Q' a t) : Ensures m Q' E s :=
  h.imp hQ fun _ _ => id

theorem Ensures.of_ok {a : α} {t : AnalyserState} (h : Ensures m Q E s) (hm : m s = .ok a t) :
    Q a t := by
  simpa only [Ensures, hm] using h

theorem Ensures.of_error {stop : Stop} {t : AnalyserState} (h : Ensures m Q E s)
    (hm : m s = .error stop t) : E stop t := by
  simpa only [Ensures, hm] using h

/-- The state in which a result leaves the analyser. -/
def endState : EStateM.Result Stop AnalyserState α → AnalyserState
  | .ok _ t | .error _ t => t

/-- What holds after a move in either case holds of the state in which it leaves the analyser. -/
theorem Ensures.endState {P : AnalyserState → Prop}
    (h : Ensures m (fun _ t => P t) (fun _ t => P t) s) : P (endState (m s)) := by
  cases hm : m s with
  | ok a t => exact h.of_ok hm
  | error stop t => exact h.of_error hm

/-! ## Moves in turn -/

@[simp] theorem ensures_pure (a : α) : Ensures (pure a) Q E s ↔ Q a s := Iff.rfl

@[simp] theorem ensures_bind :
    Ensures (m >>= f) R E s ↔ Ensures m (fun a t => Ensures (f a) R E t) E s := by
  simp only [Ensures, bind, EStateM.bind]
  cases m s <;> rfl

/-- Of the answer of two moves in turn, only the last may count. -/
theorem ensures_bind_last (h : ∀ a t, Ensures (f a) R (fun _ _ => True) t) :
    Ensures (m >>= f) R (fun _ _ => True) s := by
  rw [ensures_bind, Ensures]
  cases m s with
  | ok a t => exact h a t
  | error stop t => trivial

theorem bind_of_ok {a : α} {t : AnalyserState} (h : m s = .ok a t) : (m >>= f) s = f a t := by
  simp only [bind, EStateM.bind, h]

theorem bind_of_error {stop : Stop} {t : AnalyserState} (h : m s = .error stop t) :
    (m >>= f) s = .error stop t := by
  simp only [bind, EStateM.bind, h]

/-- Two moves in turn answer if both do. -/
theorem bind_eq_ok_iff {b : β} {u : AnalyserState} :
    (m >>= f) s = .ok b u ↔ ∃ a t, m s = .ok a t ∧ f a t = .ok b u := by
  simp only [bind, EStateM.bind]
  cases m s <;> simp [and_assoc]

/-! ## Looking -/

@[simp] theorem ensures_lookahead {Q : Token → AnalyserState → Prop} :
    Ensures lookahead Q E s ↔ Q s.lookahead s := Iff.rfl

@[simp] theorem ensures_lookingAt {p : TokenType → Bool} {Q : Bool → AnalyserState → Prop} :
    Ensures (lookingAt p) Q E s ↔ Q (p s.lookahead.type) s := Iff.rfl

@[simp] theorem ensures_typeOf {token : Token} {Q : ValueType → AnalyserState → Prop} :
    Ensures (typeOf token) Q E s ↔ Q (operandType s.scopes token) s := Iff.rfl

/-! ## Tokens and faults -/

@[simp] theorem ensures_rejectAt {token : Token} {cause : Cause} :
    Ensures (rejectAt (α := α) token cause) Q E s ↔
      E (.fault (.ofLink (cause.link token)))
        (s.emit (.error token (.ofLink (cause.link token)))) := Iff.rfl

@[simp] theorem ensures_reject {cause : Token → Cause} :
    Ensures (reject (α := α) cause) Q E s ↔
      Ensures (rejectAt (α := α) s.lookahead (cause s.lookahead)) Q E s := Iff.rfl

/-- A token of the wanted type is taken, any other is refused. -/
theorem ensures_accept {wanted : TokenType} {Q : Token → AnalyserState → Prop}
    (taken : ∀ next input, s.lookahead.type = wanted → s.input.pull = (.ok next, input) →
      Q s.lookahead (s.advance next input))
    (unread : ∀ e input, s.lookahead.type = wanted → s.input.pull = (.error e, input) →
      E (.lexical e) { s.emit (.terminal s.lookahead) with input := input })
    (refused : s.lookahead.type ≠ wanted →
      Ensures (rejectAt s.lookahead (.expected wanted s.lookahead)) Q E s) :
    Ensures (accept wanted) Q E s := by
  by_cases h : s.lookahead.type = wanted
  · simp only [Ensures, accept, h, if_true]
    rcases hp : s.input.pull with ⟨e | next, input⟩
    · exact unread e input h hp
    · exact taken next input h hp
  · simp only [Ensures, accept, h, if_false]
    exact refused h

/-- A token that is taken is told of, even if the stream breaks behind it. -/
theorem trace_accept {wanted : TokenType} (h : s.lookahead.type = wanted) :
    (endState (accept wanted s)).trace = s.trace ++ [.terminal s.lookahead] :=
  Ensures.endState (P := fun t => t.trace = s.trace ++ [.terminal s.lookahead])
    (ensures_accept (fun _ _ _ _ => AnalyserState.trace_advance ..)
      (fun _ _ _ _ => AnalyserState.trace_emit ..) fun hne => absurd h hne)

/-- A token that is taken has the wanted type, and the stream goes on behind it. -/
theorem accept_eq_ok_iff {wanted : TokenType} {token : Token} {t : AnalyserState} :
    accept wanted s = .ok token t ↔ s.lookahead.type = wanted ∧ token = s.lookahead ∧
      ∃ next input, s.input.pull = (.ok next, input) ∧ t = s.advance next input := by
  by_cases h : s.lookahead.type = wanted
  · rcases hp : s.input.pull with ⟨e | next, input⟩
    · simp [accept, h, hp]
    · simp only [accept, h, hp, if_true, EStateM.Result.ok.injEq, true_and]
      constructor
      · rintro ⟨rfl, rfl⟩
        exact ⟨rfl, next, input, rfl, rfl⟩
      · rintro ⟨rfl, next', input', same, rfl⟩
        cases same
        exact ⟨rfl, rfl⟩
  · simp [accept, h, reject, rejectAt]

@[simp] theorem ensures_expect {wanted : TokenType} {Q : Unit → AnalyserState → Prop} :
    Ensures (expect wanted) Q E s ↔ Ensures (accept wanted) (fun _ => Q ()) E s := by
  simp only [expect, ensures_bind, ensures_pure]

theorem ensures_require {p : TokenType → Bool} {cause : Token → Cause}
    {Q : Unit → AnalyserState → Prop} :
    Ensures (require p cause) Q E s ↔
      if p s.lookahead.type then Q () s
      else Ensures (rejectAt (α := Unit) s.lookahead (cause s.lookahead)) Q E s := by
  simp only [require, ensures_bind, ensures_lookingAt]
  split <;> rfl

/-! ## Scopes and sums -/

theorem ensures_requireDeclared {Q : ValueType → AnalyserState → Prop} :
    Ensures requireDeclared Q E s ↔
      if s.lookahead.type = .identifier then
        match s.scopes.lookup s.lookahead.value with
        | some v => Q v.type s
        | none =>
          Ensures (rejectAt (α := ValueType) s.lookahead (.undeclared s.lookahead.value)) Q E s
      else Q .unknown s := by
  by_cases h : s.lookahead.type = .identifier
  · simp only [Ensures, requireDeclared, h, if_true]
    cases s.scopes.lookup s.lookahead.value <;> rfl
  · simp only [Ensures, requireDeclared, h, if_false]

@[simp] theorem ensures_declare {v : Variable} {Q : Unit → AnalyserState → Prop} :
    Ensures (declare v) Q E s ↔
      Q () ({ s with scopes := s.scopes.declare v.identifier v }.emit (.add v)) := Iff.rfl

@[simp] theorem ensures_beginChain {Q : Unit → AnalyserState → Prop} :
    Ensures beginChain Q E s ↔ Q () { s with chain := .fresh } := Iff.rfl

@[simp] theorem ensures_beginTerm {Q : Unit → AnalyserState → Prop} :
    Ensures beginTerm Q E s ↔ Q () { s with chain := s.chain.enter } := Iff.rfl

@[simp] theorem ensures_recordTerm {t : ValueType} {Q : Unit → AnalyserState → Prop} :
    Ensures (recordTerm t) Q E s ↔ Q () { s with chain := s.chain.record t } := Iff.rfl

theorem ensures_checkSum {join : Option Join} {Q : Unit → AnalyserState → Prop} :
    Ensures (checkSum join) Q E s ↔
      match join.bind fun j => (s.chain.additiveMismatch? j.operator).map (j.operand, ·) with
      | some (token, mismatch) =>
        Ensures (rejectAt (α := Unit) token (.mismatch mismatch)) Q E s
      | none => Q () s := by
  unfold Ensures checkSum
  cases join.bind fun j => (s.chain.additiveMismatch? j.operator).map (j.operand, ·) <;> rfl

theorem ensures_checkFactor {operator : TokenType} {t : ValueType} {side : String} {token : Token}
    {Q : Unit → AnalyserState → Prop} :
    Ensures (checkFactor operator t side token) Q E s ↔
      if t = .string then
        Ensures (rejectAt (α := Unit) token (.mismatch (.stringFactor operator side))) Q E s
      else Q () s := by
  by_cases h : t = .string <;> simp [checkFactor, multiplicativeMismatch?, h]

@[simp] theorem ensures_inFreshChain {body : Analyser α} :
    Ensures (inFreshChain body) Q E s ↔
      Ensures body (fun a t => Q a { t with chain := s.chain })
        (fun stop t => E stop { t with chain := s.chain }) { s with chain := .fresh } := by
  unfold Ensures inFreshChain
  dsimp only
  cases body { s with chain := .fresh } <;> rfl

@[simp] theorem ensures_inLoopScope {body : Analyser α} :
    Ensures (inLoopScope body) Q E s ↔
      Ensures body (fun a t => Q a (leaveLoop t))
        (fun stop t => E stop { t with scopes := t.scopes.restore s.scopes.depth })
        (enterLoop s) := by
  unfold Ensures inLoopScope
  dsimp only
  cases body (enterLoop s) <;> rfl

/-! ## Productions -/

@[simp] theorem ensures_within {p : Production} {body : Analyser α} :
    Ensures (within p body) Q E s ↔
      Ensures body (fun a t => Q a (t.emit (.finish p.name)))
        (fun stop t => E (stop.through p.name t.lookahead) (t.abandon p.name stop))
        (s.emit (.begin p.name)) := by
  unfold Ensures within
  rcases body (s.emit (.begin p.name)) with ⟨a, t⟩ | ⟨stop, t⟩
  · rfl
  · cases stop <;> simp [AnalyserState.abandon, AnalyserState.emit, Stop.through, Stop.farewell,
      FaultReport.fault, FaultReport.event, FaultReport.linkKind, passageLink]

theorem within_eq_ok_iff {p : Production} {body : Analyser α} {a : α} {t : AnalyserState} :
    within p body s = .ok a t ↔
      ∃ r, body (s.emit (.begin p.name)) = .ok a r ∧ r.emit (.finish p.name) = t := by
  unfold within
  rcases body (s.emit (.begin p.name)) with ⟨b, r⟩ | ⟨stop, r⟩
  · simp [and_assoc]
  · cases stop <;> simp

end Analyser

end BlockLang
