import BlockLang.Proofs.Trace.Twin

/-!
# Analyses told to other sinks

A run learns nothing from its sink. If what one sink makes of the entries can be read off what
another one makes of them, then the run that tells the first is the run that tells the second, with
one sink read off the other. All sinks can be read off the entries themselves, so an analysis that
tells any sink is the recorded analysis, with its entries told to the sink.

## Main definitions

* `Carries φ`: what one sink makes of the entries is `φ` of what another makes of them
* `AnalyserState.retold φ`, `Analysis.retold φ`: the same with another sink

## Main results

* `Twin.retells`: twins make the same run for both sinks
* `analyseWithin_eq_retold`: an analysis told to a sink that can be read off another one
* `analyseWithin_eq_tellAll`: an analysis is the recorded analysis, told to another sink
-/

namespace BlockLang

open Analyser

variable {σ τ : Type} [TraceSink σ] [TraceSink τ] {φ : σ → τ} {α : Type}

/-- What the second sink makes of the entries is `φ` of what the first one makes of them. -/
structure Carries (φ : σ → τ) : Prop where
  start : φ TraceSink.start = TraceSink.start
  tell : ∀ sink e, φ (TraceSink.tell sink e) = TraceSink.tell (φ sink) e

theorem Carries.tellAll (h : Carries φ) (sink : σ) (events : List Event) :
    φ (tellAll sink events) = BlockLang.tellAll (φ sink) events := by
  induction events generalizing sink with
  | nil => rfl
  | cons e rest ih => rw [tellAll_cons, tellAll_cons, ih, h.tell]

/-- Every sink can be read off the entries. -/
theorem carries_tellAll :
    Carries fun recorded : Array Event => tellAll (TraceSink.start : τ) recorded.toList where
  start := rfl
  tell recorded e := by simp [tellAll_append]

/-- The state with a sink that is read off its own. -/
def AnalyserState.retold (φ : σ → τ) (s : AnalyserState σ) : AnalyserState τ :=
  ⟨s.lookahead, s.input, s.scopes, s.chain, φ s.events, s.notices⟩

/-- What a run leaves behind, with a sink that is read off its own. -/
def Analysis.retold (φ : σ → τ) (a : Analysis α σ) : Analysis α τ :=
  ⟨a.outcome, a.lookahead, a.scopes, a.chain, φ a.events, a.notices⟩

namespace Analyser

/-- The result with a sink that is read off its own. -/
def retold (φ : σ → τ) :
    EStateM.Result Stop (AnalyserState σ) α → EStateM.Result Stop (AnalyserState τ) α
  | .ok a t => .ok a (t.retold φ)
  | .error stop t => .error stop (t.retold φ)

/-- The second move makes the run of the first, with a sink that is read off the other one. -/
def Retells (φ : σ → τ) (m : AnalyserTo σ α) (n : AnalyserTo τ α) : Prop :=
  ∀ s, n (s.retold φ) = retold φ (m s)

theorem retold_emit (h : Carries φ) (s : AnalyserState σ) (e : Event) :
    (s.emit e).retold φ = (s.retold φ).emit e := by
  simp only [AnalyserState.retold, AnalyserState.emit, h.tell]

theorem retells_rejectAt (h : Carries φ) (token : Token) (cause : Cause) :
    Retells φ (rejectAt (α := α) token cause) (rejectAt token cause) := fun s =>
  congrArg (EStateM.Result.error _) (retold_emit h s _).symm

theorem retells_accept (h : Carries φ) (wanted : TokenType) :
    Retells φ (accept wanted) (accept wanted) := by
  intro s
  by_cases ht : s.lookahead.type = wanted
  · have taken := retold_emit h s (.terminal s.lookahead)
    rcases hp : s.input.pull with ⟨e | next, input⟩
    all_goals
      simp only [accept, AnalyserState.retold, ht, hp, if_true, retold]
      simp only [AnalyserState.emit, AnalyserState.retold, AnalyserState.mk.injEq] at taken ⊢
      rw [taken.2.2.2.2.1]
  · simp only [accept, AnalyserState.retold, ht, if_false]
    exact retells_rejectAt h s.lookahead (.expected wanted s.lookahead) s

omit [TraceSink σ] [TraceSink τ] in
theorem retells_bind {β : Type} {m : AnalyserTo σ α} {n : AnalyserTo τ α} {f : α → AnalyserTo σ β}
    {g : α → AnalyserTo τ β} (hm : Retells φ m n)
    (hf : ∀ a s t, m s = .ok a t → Retells φ (f a) (g a)) : Retells φ (m >>= f) (n >>= g) := by
  intro s
  simp only [bind, EStateM.bind, hm s]
  cases ha : m s with
  | ok a t => exact hf a s t ha t
  | error stop t => rfl

/-- A token that is taken has the wanted type. -/
theorem type_eq_of_accept {wanted : TokenType} {s t : AnalyserState σ} {token : Token}
    (h : accept wanted s = .ok token t) : token.type = wanted := by
  unfold accept at h
  split at h
  · next seen =>
    split at h
    · cases h
      exact seen
    · cases h
  · cases h

theorem retells_requireDeclared (h : Carries φ) : Retells φ requireDeclared requireDeclared := by
  intro s
  by_cases identifier : s.lookahead.type = .identifier
  · cases hl : s.scopes.lookup s.lookahead.value with
    | some v => simp only [requireDeclared, AnalyserState.retold, identifier, hl, if_true, retold]
    | none =>
      simp only [requireDeclared, AnalyserState.retold, identifier, hl, if_true]
      exact retells_rejectAt h s.lookahead _ s
  · simp only [requireDeclared, AnalyserState.retold, identifier, if_false, retold]

theorem retells_declare (h : Carries φ) (v : Variable) : Retells φ (declare v) (declare v) :=
  fun s => congrArg (EStateM.Result.ok ())
    (retold_emit h { s with scopes := s.scopes.declare v.identifier v } (.add v)).symm

theorem retells_checkSum (h : Carries φ) (join : Option Join) :
    Retells φ (checkSum join) (checkSum join) := by
  intro s
  cases hj : join.bind fun j => (s.chain.additiveMismatch? j.operator).map (j.operand, ·) with
  | some refused =>
    simp only [checkSum, AnalyserState.retold, hj]
    exact retells_rejectAt h _ _ s
  | none => simp only [checkSum, AnalyserState.retold, hj, retold]

omit [TraceSink σ] [TraceSink τ] in
theorem retells_inFreshChain {m : AnalyserTo σ α} {n : AnalyserTo τ α} (h : Retells φ m n) :
    Retells φ (inFreshChain m) (inFreshChain n) := by
  intro s
  have body : n { s.retold φ with chain := .fresh } = retold φ (m { s with chain := .fresh }) :=
    h { s with chain := .fresh }
  unfold inFreshChain
  simp only [body]
  cases m { s with chain := .fresh } <;> rfl

theorem retells_leaveLoop (h : Carries φ) (s : AnalyserState σ) :
    leaveLoop (s.retold φ) = (leaveLoop s).retold φ := by
  simp only [leaveLoop, AnalyserState.retold]
  cases s.scopes.leave? with
  | none => rfl
  | some left => simp only [AnalyserState.notify, h.tellAll]

theorem retells_inLoopScope (h : Carries φ) {m : AnalyserTo σ α} {n : AnalyserTo τ α}
    (hm : Retells φ m n) : Retells φ (inLoopScope m) (inLoopScope n) := by
  intro s
  have body : n (enterLoop (s.retold φ)) = retold φ (m (enterLoop s)) := hm (enterLoop s)
  unfold inLoopScope
  simp only [body]
  cases m (enterLoop s) with
  | ok a t => exact congrArg (EStateM.Result.ok a) (retells_leaveLoop h t)
  | error stop t => rfl

theorem retells_within (h : Carries φ) (p : Production) {m : AnalyserTo σ α} {n : AnalyserTo τ α}
    (hm : Retells φ m n) : Retells φ (within p m) (within p n) := by
  intro s
  have body := hm (s.emit (.begin p.name))
  rw [retold_emit h] at body
  unfold within
  simp only [body]
  rcases m (s.emit (.begin p.name)) with ⟨a, t⟩ | ⟨stop, t⟩
  · exact congrArg (EStateM.Result.ok a) (retold_emit h t _).symm
  · cases stop with
    | fault cause =>
      refine congrArg (EStateM.Result.error _) ?_
      rw [retold_emit h, retold_emit h]
      rfl
    | lexical e => exact congrArg (EStateM.Result.error _) (retold_emit h t _).symm
    | tooDeep => exact congrArg (EStateM.Result.error _) (retold_emit h t _).symm

end Analyser

/-- Twins make the same run for both sinks. -/
theorem Twin.retells {m : AnalyserTo σ α} {n : AnalyserTo τ α}
    (h : Twin (fun _ => True) m n) (carries : Carries φ) : Retells φ m n := by
  -- Induction on how the twins are put together: the sink is told, and nothing else reads it.
  induction h with
  | pure | tooDeep | lookingAt | typeOf | beginChain | beginTerm | recordTerm => exact fun s => rfl
  | bind _ _ ihm ihf => exact retells_bind ihm fun a _ _ _ => ihf a
  | looking _ ih => exact fun s => ih s.lookahead trivial s
  | taking wanted _ ih =>
    exact retells_bind (retells_accept carries wanted) fun token _ _ ha =>
      ih token trivial (type_eq_of_accept ha)
  | refuse _ => exact fun s => retells_rejectAt carries s.lookahead _ s
  | mismatch => exact retells_rejectAt carries _ _
  | requireDeclared => exact retells_requireDeclared carries
  | declare _ => exact retells_declare carries _
  | checkSum _ => exact retells_checkSum carries _
  | inFreshChain _ ih => exact retells_inFreshChain ih
  | inLoopScope _ ih => exact retells_inLoopScope carries ih
  | within p _ ih => exact retells_within carries p ih

/-- An analysis that tells one sink is the analysis that tells another, with the sink read off. -/
theorem analyseWithin_eq_retold (carries : Carries φ) (limit : Nat) (stream : TokenStream) :
    analyseWithin limit stream τ = (analyseWithin limit stream σ).retold φ := by
  unfold analyseWithin runFrom
  rcases stream.pull with ⟨e | first, input⟩
  · simp only [Analysis.unlexed, Analysis.retold, carries.start]
  · have run := (twin_program (σ := σ) (τ := τ) limit).retells carries
      ⟨first, input, .empty, .fresh, TraceSink.start, #[]⟩
    simp only [AnalyserState.retold, carries.start] at run
    simp only [run]
    cases program (σ := σ) limit ⟨first, input, .empty, .fresh, TraceSink.start, #[]⟩ <;> rfl

/-- An analysis is the recorded analysis, whose entries are told to the sink. -/
theorem analyseWithin_eq_tellAll (limit : Nat) (stream : TokenStream) :
    analyseWithin limit stream σ = (analyseWithin limit stream (Array Event)).retold fun recorded =>
      tellAll TraceSink.start recorded.toList :=
  analyseWithin_eq_retold carries_tellAll limit stream

end BlockLang
