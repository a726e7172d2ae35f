import BlockLang.Proofs.Renaming.Alike

/-!
# Moves mirrored

The moves of the analyser ask a token for its type, and its text only to look it up as a name. So
from states that are alike a move comes to states that are alike, and it answers or stops alike.

## Main definitions

* `Analyser.ResultAlike r A result result'`: the results are alike, with answers that `A` relates
* `Analyser.Mirrors r A m m'`: from states that are alike the moves have results that are alike

## Main results

* `Analyser.Mirrors.bind`: two moves in turn
* `Analyser.mirrors_accept`, `Analyser.mirrors_rejectAt`: a token is taken or refused
* `Analyser.Mirrors.inLoopScope`, `Analyser.Mirrors.within`: a loop scope or a production around a
  move
-/

namespace BlockLang

open Analyser

variable {r : Renaming} {s s' : AnalyserState}

namespace AnalyserState.Alike

theorem emit (h : s.Alike r s') {e e' : Event} (he : e.Alike r e') :
    (s.emit e).Alike r (s'.emit e') where
  lookahead := h.lookahead
  input := h.input
  scopes := h.scopes
  chain_eq := h.chain_eq
  trace := by
    rw [trace_emit, trace_emit]
    exact List.rel_append h.trace (.cons he .nil)
  notices_eq := h.notices_eq

theorem withChain (h : s.Alike r s') (chain : OperandChain) :
    ({ s with chain := chain } : AnalyserState).Alike r { s' with chain := chain } :=
  ⟨h.lookahead, h.input, h.scopes, rfl, h.trace, h.notices_eq⟩

theorem withScopes (h : s.Alike r s') {scopes scopes' : Scopes} (hs : scopes.Alike r scopes') :
    ({ s with scopes := scopes } : AnalyserState).Alike r { s' with scopes := scopes' } :=
  ⟨h.lookahead, h.input, hs, h.chain_eq, h.trace, h.notices_eq⟩

theorem notify (h : s.Alike r s') (n : Notice) : (s.notify n).Alike r (s'.notify n) :=
  ⟨h.lookahead, h.input, h.scopes, h.chain_eq, h.trace, by
    rw [AnalyserState.notify, AnalyserState.notify, h.notices_eq]⟩

theorem enterLoop (h : s.Alike r s') : (enterLoop s).Alike r (Analyser.enterLoop s') := by
  have inside := h.withScopes h.scopes.enter
  rw [Analyser.enterLoop, Analyser.enterLoop, h.scopes.enter.depth_eq]
  exact inside.notify _

/-- The variables that are dropped are alike in turn. -/
theorem leaveLoop (h : s.Alike r s') : (leaveLoop s).Alike r (Analyser.leaveLoop s') := by
  have left := h.scopes.leave?
  unfold Analyser.leaveLoop
  dsimp only
  rw [h.scopes.depth_eq]
  generalize s.scopes.leave? = left?, s'.scopes.leave? = left?' at left ⊢
  cases left with
  | none => exact h
  | @some left left' same =>
    obtain ⟨removed, scopes⟩ := same
    have told : List.Forall₂ (Event.Alike r) (left.1.map .remove) (left'.1.map .remove) := by
      rw [List.forall₂_map_left_iff, List.forall₂_map_right_iff]
      exact removed.imp fun _ _ hv => .remove hv
    have inside : AnalyserState.Alike r
        { s with scopes := left.2, events := s.events ++ left.1.map Event.remove }
        { s' with scopes := left'.2, events := s'.events ++ left'.1.map Event.remove } :=
      ⟨h.lookahead, h.input, scopes, h.chain_eq,
        by simpa [AnalyserState.trace] using List.rel_append h.trace told, h.notices_eq⟩
    dsimp only
    rw [← removed.length_eq]
    exact inside.notify _

end AnalyserState.Alike

namespace Analyser

variable {α β γ δ : Type}

/-- The results are alike: both answer, as `A` says, or both stop, and the states are alike. -/
inductive ResultAlike (r : Renaming) (A : α → β → Prop) :
    EStateM.Result Stop AnalyserState α → EStateM.Result Stop AnalyserState β → Prop
  | ok {a : α} {b : β} {t t' : AnalyserState} (ha : A a b) (ht : t.Alike r t') :
      ResultAlike r A (.ok a t) (.ok b t')
  | error {e e' : Stop} {t t' : AnalyserState} (he : e.Alike r e') (ht : t.Alike r t') :
      ResultAlike r A (.error e t) (.error e' t')

/-- From states that are alike the moves have results that are alike. -/
def Mirrors (r : Renaming) (A : α → β → Prop) (m : Analyser α) (m' : Analyser β) : Prop :=
  ∀ s s' : AnalyserState, s.Alike r s' → ResultAlike r A (m s) (m' s')

variable {A : α → β → Prop} {B : γ → δ → Prop} {m : Analyser α} {m' : Analyser β}

theorem mirrors_pure {a : α} {b : β} (h : A a b) : Mirrors r A (pure a) (pure b) :=
  fun _ _ hs => .ok h hs

theorem Mirrors.bind {f : α → Analyser γ} {f' : β → Analyser δ} (h : Mirrors r A m m')
    (h' : ∀ a b, A a b → Mirrors r B (f a) (f' b)) : Mirrors r B (m >>= f) (m' >>= f') := by
  intro s s' hs
  have first := h s s' hs
  simp only [Bind.bind, EStateM.bind]
  generalize m s = result, m' s' = result' at first ⊢
  cases first with
  | ok ha ht => exact h' _ _ ha _ _ ht
  | error he ht => exact .error he ht

/-- Two moves in turn, the first of which answers the same in both runs. -/
theorem Mirrors.andThen {m m' : Analyser α} {f : α → Analyser γ} {f' : α → Analyser δ}
    (h : Mirrors r Eq m m') (h' : ∀ a, Mirrors r B (f a) (f' a)) :
    Mirrors r B (m >>= f) (m' >>= f') := h.bind fun a _ ha => ha ▸ h' a

/-! ## Looking -/

theorem mirrors_lookahead : Mirrors r (Token.Alike r) lookahead lookahead :=
  fun _ _ hs => .ok hs.lookahead hs

theorem mirrors_lookingAt (p : TokenType → Bool) : Mirrors r Eq (lookingAt p) (lookingAt p) :=
  fun _ _ hs => .ok (congrArg p hs.lookahead.type_eq.symm) hs

theorem mirrors_typeOf {token token' : Token} (h : token.Alike r token') :
    Mirrors r Eq (typeOf token) (typeOf token') :=
  fun _ _ hs => .ok (operandType_eq_of_alike hs.scopes h).symm hs

/-! ## Tokens and faults -/

theorem faultAlike_ofLink {cause cause' : Cause} {token token' : Token}
    (h : token.Alike r token') (hc : cause'.kind = cause.kind) :
    Fault.Alike r (.ofLink (cause.link token)) (.ofLink (cause'.link token')) :=
  .cons ⟨hc, token, token', h, rfl, rfl⟩ .nil

theorem mirrors_rejectAt {cause cause' : Cause} {token token' : Token} (h : token.Alike r token')
    (hc : cause'.kind = cause.kind) :
    Mirrors r A (rejectAt token cause) (rejectAt token' cause') := fun _ _ hs =>
  have fault := faultAlike_ofLink h hc
  .error (.fault fault) (hs.emit (.error h fault))

theorem mirrors_reject (cause : Token → Cause) (h : ∀ t t', (cause t').kind = (cause t).kind) :
    Mirrors r A (reject cause) (reject cause) := fun s s' hs =>
  mirrors_rejectAt hs.lookahead (h s.lookahead s'.lookahead) s s' hs

/-- A token is taken in both runs, or refused in both. -/
theorem mirrors_accept (wanted : TokenType) :
    Mirrors r (fun t t' => t.Alike r t' ∧ t.type = wanted) (accept wanted) (accept wanted) := by
  intro s s' hs
  have type_eq := hs.lookahead.type_eq
  by_cases h : s.lookahead.type = wanted
  · have told := hs.emit (.terminal hs.lookahead)
    have pulled := hs.input.pull
    simp only [accept, h, type_eq.trans h, if_true]
    generalize s.input.pull = delivered, s'.input.pull = delivered' at pulled ⊢
    cases pulled with
    | token next later =>
      refine .ok ⟨hs.lookahead, h⟩ ?_
      exact ⟨next, later, told.scopes, told.chain_eq, told.trace, told.notices_eq⟩
    | error place later =>
      refine .error (.lexical place) ?_
      exact ⟨hs.lookahead, later, told.scopes, told.chain_eq, told.trace, told.notices_eq⟩
  · have refused : accept wanted s = reject (.expected wanted) s := if_neg h
    have refused' : accept wanted s' = reject (.expected wanted) s' := if_neg (type_eq ▸ h)
    rw [refused, refused']
    exact mirrors_reject (.expected wanted) (fun _ _ => rfl) s s' hs

theorem mirrors_expect (wanted : TokenType) : Mirrors r Eq (expect wanted) (expect wanted) :=
  (mirrors_accept wanted).bind fun _ _ _ => mirrors_pure rfl

theorem mirrors_require (p : TokenType → Bool) {cause : Token → Cause}
    (h : ∀ t t', (cause t').kind = (cause t).kind) :
    Mirrors r Eq (require p cause) (require p cause) := by
  refine (mirrors_lookingAt p).bind fun b b' hb => ?_
  subst hb
  cases b
  · exact mirrors_reject cause h
  · exact mirrors_pure rfl

/-! ## Scopes and sums -/

theorem mirrors_requireDeclared : Mirrors r Eq requireDeclared requireDeclared := by
  intro s s' hs
  have type_eq := hs.lookahead.type_eq
  by_cases h : s.lookahead.type = .identifier
  · have found := hs.scopes.lookup (hs.lookahead.renamed.named h)
    simp only [requireDeclared, h, type_eq.trans h, if_true]
    generalize s.scopes.lookup s.lookahead.value = found?,
      s'.scopes.lookup s'.lookahead.value = found?' at found ⊢
    cases found with
    | none => exact mirrors_reject (fun t => .undeclared t.value) (fun _ _ => rfl) s s' hs
    | some hv => exact .ok hv.type_eq.symm hs
  · simp only [requireDeclared, h, type_eq ▸ h, if_false]
    exact .ok rfl hs

theorem mirrors_declare {v v' : Variable} (h : v.Alike r v') :
    Mirrors r Eq (declare v) (declare v') := fun _ _ hs =>
  .ok rfl ((hs.withScopes (hs.scopes.declare h)).emit (.add h))

theorem mirrors_beginChain : Mirrors r Eq beginChain beginChain :=
  fun _ _ hs => .ok rfl (hs.withChain .fresh)

theorem mirrors_beginTerm : Mirrors r Eq beginTerm beginTerm := by
  intro s s' hs
  rw [beginTerm, beginTerm, hs.chain_eq]
  exact .ok rfl (hs.withChain _)

theorem mirrors_recordTerm (t : ValueType) : Mirrors r Eq (recordTerm t) (recordTerm t) := by
  intro s s' hs
  rw [recordTerm, recordTerm, hs.chain_eq]
  exact .ok rfl (hs.withChain _)

/-- The expressions that two sums go on with: the operator is the same, and the tokens after it are
alike. -/
abbrev JoinsAlike (r : Renaming) (join join' : Option Join) : Prop :=
  Option.Rel (fun j j' => j'.operator = j.operator ∧ j.operand.Alike r j'.operand) join join'

/-- The sums are the same in both runs, so the terms fit in both or in none. -/
theorem mirrors_checkSum {join join' : Option Join} (h : JoinsAlike r join join') :
    Mirrors r Eq (checkSum join) (checkSum join') := by
  intro s s' hs
  cases h with
  | none => exact .ok rfl hs
  | @some j j' hj =>
    unfold checkSum
    simp only [Option.bind_some, hs.chain_eq, hj.1]
    cases s.chain.additiveMismatch? j.operator with
    | none => exact .ok rfl hs
    | some mismatch => exact mirrors_rejectAt hj.2 rfl s s' hs

theorem mirrors_checkFactor (operator : TokenType) (t : ValueType) (side : String)
    {token token' : Token} (h : token.Alike r token') :
    Mirrors r Eq (checkFactor operator t side token) (checkFactor operator t side token') := by
  unfold checkFactor
  split
  · exact mirrors_rejectAt h rfl
  · exact mirrors_pure rfl

theorem Mirrors.inFreshChain (h : Mirrors r A m m') :
    Mirrors r A (inFreshChain m) (inFreshChain m') := by
  intro s s' hs
  have inside := h _ _ (hs.withChain .fresh)
  simp only [Analyser.inFreshChain, hs.chain_eq]
  generalize m { s with chain := .fresh } = result, m' { s' with chain := .fresh } = result'
    at inside ⊢
  cases inside with
  | ok ha ht => exact .ok ha (ht.withChain _)
  | error he ht => exact .error he (ht.withChain _)

theorem Mirrors.inLoopScope (h : Mirrors r A m m') :
    Mirrors r A (inLoopScope m) (inLoopScope m') := by
  intro s s' hs
  have inside := h _ _ hs.enterLoop
  simp only [Analyser.inLoopScope, hs.scopes.depth_eq]
  generalize m (enterLoop s) = result, m' (enterLoop s') = result' at inside ⊢
  cases inside with
  | ok ha ht => exact .ok ha ht.leaveLoop
  | error he ht => exact .error he (ht.withScopes (ht.scopes.restore _))

/-- A fault takes the production along in both runs. -/
theorem Mirrors.within (p : Production) (h : Mirrors r A m m') :
    Mirrors r A (within p m) (within p m') := by
  intro s s' hs
  have inside := h _ _ (hs.emit (.begin p.name))
  simp only [Analyser.within]
  generalize m (s.emit (.begin p.name)) = result, m' (s'.emit (.begin p.name)) = result'
    at inside ⊢
  cases inside with
  | ok ha ht => exact .ok ha (ht.emit (.finish p.name))
  | @error e e' t t' he ht =>
    cases he with
    | @fault f f' hf =>
      have fault : Fault.Alike r (f.within (passageLink p.name t.lookahead))
          (f'.within (passageLink p.name t'.lookahead)) :=
        .cons ⟨rfl, t.lookahead, t'.lookahead, ht.lookahead, rfl, rfl⟩ hf
      exact .error (.fault fault) ((ht.emit (.error ht.lookahead fault)).emit (.finish p.name))
    | lexical he => exact .error (.lexical he) (ht.emit (.finish p.name))
    | tooDeep => exact .error .tooDeep (ht.emit (.finish p.name))

end Analyser

end BlockLang
