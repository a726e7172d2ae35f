import BlockLang.Proofs.Grammar.Height
import BlockLang.Proofs.Reading.Operands

/-!
# Reading expressions

Expressions, terms and factors are read as their derivations say, whatever scopes are open. They
answer with the one type that their tokens have, or a mismatch stops the run if the tokens have
none.

## Main definitions

* `Meets s γ taken w next`: before the tokens `w`, behind which is `next`, with the scopes `γ`
* `Stop.rootKind?`, `Refused`: why the reading of a value stops
* `Analyser.Values m has good bad s`: the move answers the one type there is, or stops if there is
  none
* `Tree.Evaluates`: a derivation of a value is read under a limit
* `LeavesHave`, `WellTyped`: what the leaves and the operators of an expression are

## Main results

* `Tree.Derived.evaluates`: every derivation of a value is read under a limit that its height
  allows
* `expression_read_iff_wellTyped`: an expression is read just when it is well typed, and its type is
  that of its leaves
-/

namespace BlockLang

open Analyser

/-- After the tokens `taken`, the tokens `w` come next, and behind them is `next`. The names among
them stand for numbers and strings, if they stand for anything. -/
structure Meets (s : AnalyserState) (γ : Scopes) (taken w : List Token) (next : Place) : Prop where
  passes : Passes s.place w next
  scopes_eq : s.scopes = γ
  accepted_eq : s.accepted = taken
  known : ∀ t ∈ w, t.type = .identifier → ∀ x, γ.lookup t.value = some x → x.type ≠ .unknown

variable {s t : AnalyserState} {γ : Scopes} {taken u v w : List Token} {token : Token}
  {next : Place} {limit : Nat} {children : List Tree} {σ : ValueType}

namespace Meets

theorem lookahead_eq (h : Meets s γ taken (token :: w) next) : s.lookahead = token := h.passes.1

/-- Only the place, the scopes and the accepted tokens count. -/
theorem congr (h : Meets s γ taken w next) (hp : t.place = s.place) (hs : t.scopes = s.scopes)
    (ha : t.accepted = s.accepted) : Meets t γ taken w next :=
  ⟨hp ▸ h.passes, hs.trans h.scopes_eq, ha.trans h.accepted_eq, h.known⟩

/-- Tokens in two parts: the second comes after the first. -/
theorem split (h : Meets s γ taken (u ++ v) next) :
    ∃ between, Meets s γ taken u between ∧ Passes between v next ∧
      ∀ t, Meets t γ (taken ++ u) [] between → Meets t γ (taken ++ u) v next := by
  obtain ⟨between, first, second⟩ := passes_append.mp h.passes
  refine ⟨between, ⟨first, h.scopes_eq, h.accepted_eq, ?_⟩, second, fun t ht => ?_⟩
  · exact fun t ht => h.known t (List.mem_append_left v ht)
  · have here : t.place = between := ht.passes
    exact ⟨here ▸ second, ht.scopes_eq, ht.accepted_eq,
      fun t ht => h.known t (List.mem_append_right u ht)⟩

/-- The token that comes next is taken. -/
theorem accept {wanted : TokenType} {E : Stop → AnalyserState → Prop}
    (h : Meets s γ taken (token :: w) next) (hw : token.type = wanted) :
    Ensures (Analyser.accept wanted)
      (fun a t => a = token ∧ Meets t γ (taken ++ [token]) w next ∧ t.chain = s.chain) E s := by
  refine ensures_accept_of_passes h.passes hw fun there rest =>
    ⟨rfl, ⟨rest, h.scopes_eq, ?_, ?_⟩, rfl⟩
  · rw [AnalyserState.accepted_advance, h.accepted_eq, h.lookahead_eq]
  · exact fun t ht => h.known t (List.mem_cons_of_mem _ ht)

theorem expect {wanted : TokenType} {E : Stop → AnalyserState → Prop}
    (h : Meets s γ taken (token :: w) next) (hw : token.type = wanted) :
    Ensures (Analyser.expect wanted)
      (fun _ t => Meets t γ (taken ++ [token]) w next ∧ t.chain = s.chain) E s :=
  ensures_expect.mpr ((h.accept hw).answer fun _ _ ht => ht.2)

end Meets

/-! ## Stops -/

/-- The class of the first cause of a fault. -/
def Stop.rootKind? : Stop → Option FaultKind
  | .fault f => some f.root.kind
  | _ => none

@[simp] theorem Stop.rootKind?_through (stop : Stop) (p : String) (lookahead : Token) :
    (stop.through p lookahead).rootKind? = stop.rootKind? := by
  cases stop <;> simp [rootKind?, through]

/-- Operands do not fit, or a name among the tokens stands for nothing. -/
def Refused (γ : Scopes) (w : List Token) (stop : Stop) : Prop :=
  stop.rootKind? = some .mismatch ∨
    stop.rootKind? = some .undeclared ∧
      ∃ t ∈ w, t.type = .identifier ∧ γ.lookup t.value = none

theorem Refused.mono {stop : Stop} (h : Refused γ v stop) (sub : ∀ t ∈ v, t ∈ w) :
    Refused γ w stop := by
  rcases h with mismatch | ⟨kind, t, ht, name⟩
  · exact .inl mismatch
  · exact .inr ⟨kind, t, sub t ht, name⟩

namespace Analyser

variable {m : Analyser ValueType} {has : ValueType → Prop} {good : AnalyserState → Prop}
  {bad : Stop → Prop}

/-- The move answers the one type there is and comes to a good state, or it stops badly if there is
none. -/
def Values (m : Analyser ValueType) (has : ValueType → Prop) (good : AnalyserState → Prop)
    (bad : Stop → Prop) (s : AnalyserState) : Prop :=
  Ensures m (fun τ t => (∀ σ, has σ ↔ σ = τ) ∧ good t)
    (fun stop _ => (∀ σ, ¬has σ) ∧ bad stop) s

theorem values_within {p : Production} {good' : AnalyserState → Prop}
    (h : Values m has good (Refused γ w) (s.emit (.begin p.name)))
    (hg : ∀ t, good t → good' (t.emit (.finish p.name))) :
    Values (within p m) has good' (Refused γ w) s := by
  refine ensures_within.mpr (h.imp (fun _ t ht => ⟨ht.1, hg t ht.2⟩) fun stop t ht => ⟨ht.1, ?_⟩)
  simpa [Refused] using ht.2

end Analyser

/-- A derivation of a value is read under a limit. -/
structure Tree.Evaluates (limit : Nat) (d : Tree) : Prop where
  factor : d.symbol = .rule .factor → ∀ {s γ taken next}, Meets s γ taken d.yield next →
    Values (analyser limit .factor) (Uniform γ d.yield)
      (fun t => Meets t γ (taken ++ d.yield) [] next ∧ t.chain = s.chain) (Refused γ d.yield) s
  term : d.symbol = .rule .term → ∀ {s γ taken next}, Meets s γ taken d.yield next →
    Production.term.goesOn next.1.type = false →
    Values (analyser limit .term) (Uniform γ d.yield)
      (fun t => Meets t γ (taken ++ d.yield) [] next ∧ t.chain = s.chain) (Refused γ d.yield) s
  expression : d.symbol = .rule .expression → ∀ (join : Option Join) {s γ taken next},
    Meets s γ taken d.yield next → Production.expression.goesOn next.1.type = false →
    Join.Ready join s.chain →
    Values (analyser limit (.expression join))
      (fun σ => Uniform γ d.yield σ ∧ Join.Fits s.chain σ join)
      (fun t => Meets t γ (taken ++ d.yield) [] next) (Refused γ d.yield) s

/-! ## Factors -/

/-- A factor is read as its derivation says. -/
theorem values_factor (allowed : children.map Tree.symbol ∈ Production.factor.extended.words)
    (parts : ∀ c ∈ children, c.Evaluates limit)
    (h : Meets s γ taken (Tree.yields children) next) :
    Values (rule (analyser limit) .factor) (Uniform γ (Tree.yields children))
      (fun t => Meets t γ (taken ++ Tree.yields children) [] next ∧ t.chain = s.chain)
      (Refused γ (Tree.yields children)) s := by
  refine ensures_bind.mpr (ensures_lookahead.mpr ?_)
  -- A name, a number, or an expression in parentheses.
  rcases Tree.factor_children allowed with ⟨token, ht, rfl⟩ | ⟨token, ht, rfl⟩ |
    ⟨l, e, r, hl, he, hr, rfl⟩
  · change Meets s γ taken [token] next at h
    rw [h.lookahead_eq, ht]
    refine ensures_bind.mpr (ensures_requireDeclared.mpr ?_)
    rw [h.lookahead_eq, if_pos ht, h.scopes_eq]
    cases hx : γ.lookup token.value with
    | none =>
      -- A name that is not visible has no type.
      refine ⟨fun σ => not_uniform_of_lookup_eq_none ht hx, .inr ⟨rfl, token, ?_, ht, hx⟩⟩
      exact List.mem_cons_self
    | some x =>
      have type_eq := operandType_identifier ht hx
      have known : operandType γ token ≠ .unknown :=
        type_eq ▸ h.known token List.mem_cons_self ht x hx
      refine ensures_bind.mpr ((h.expect ht).answer fun _ t hst => ⟨fun σ => ?_, hst⟩)
      rw [← type_eq]
      exact uniform_operand (by rw [ht]; rfl) known
  · change Meets s γ taken [token] next at h
    rw [h.lookahead_eq, ht]
    exact ensures_bind.mpr ((h.expect ht).answer fun _ t hst => ⟨fun σ => uniform_number ht, hst⟩)
  · have yields_eq : Tree.yields [.leaf l, e, .leaf r] = l :: (e.yield ++ [r]) := by
      simp [Tree.yields, Tree.yield]
    have inside : ∀ t ∈ e.yield, t ∈ l :: (e.yield ++ [r]) := fun t ht =>
      List.mem_cons_of_mem l (List.mem_append_left [r] ht)
    rw [yields_eq] at h ⊢
    rw [h.lookahead_eq, hl]
    refine ensures_bind.mpr ((h.expect hl).answer fun _ t ht => ?_)
    obtain ⟨between, inner, rest, after⟩ := ht.1.split
    -- The expression is read on a chain of its own, so its first term fits whatever its type.
    have fresh : Meets { t with chain := .fresh } γ (taken ++ [l]) e.yield between :=
      inner.congr rfl rfl rfl
    have closed : Production.expression.goesOn between.1.type = false := by
      rw [show between.1.type = .rightParen from rest.1 ▸ hr]
      rfl
    refine ensures_bind.mpr (ensures_inFreshChain.mpr ?_)
    refine ((parts e (by simp)).expression he none fresh closed rfl).imp (fun τ u hu => ?_)
      fun stop u hu => ⟨fun σ hσ => ?_, hu.2.mono inside⟩
    · obtain ⟨typed, hu⟩ := hu
      have last : Meets { u with chain := t.chain } γ (taken ++ [l] ++ e.yield) [r] next :=
        (after u hu).congr rfl rfl rfl
      refine ensures_bind.mpr ((last.expect hr).answer fun _ x hx => ⟨fun σ => ?_, ?_, ?_⟩)
      · rw [uniform_parenthesized hl hr, ← typed σ]
        exact ⟨fun h => ⟨h, trivial⟩, fun h => h.1⟩
      · simpa using hx.1
      · exact hx.2.trans ht.2
    · exact hu.1 σ ⟨(uniform_parenthesized hl hr).mp hσ, trivial⟩

/-! ## Terms -/

/-- A term is read as its derivation says. -/
theorem values_term (allowed : children.map Tree.symbol ∈ Production.term.extended.words)
    (derived : ∀ c ∈ children, c.Derived) (parts : ∀ c ∈ children, c.Evaluates limit)
    (h : Meets s γ taken (Tree.yields children) next)
    (closed : Production.term.goesOn next.1.type = false) :
    Values (rule (analyser limit) .term) (Uniform γ (Tree.yields children))
      (fun t => Meets t γ (taken ++ Tree.yields children) [] next ∧ t.chain = s.chain)
      (Refused γ (Tree.yields children)) s := by
  have begins : s.lookahead.type.startsOperand := h.passes.begins allowed derived
  refine ensures_bind.mpr (ensures_require.mpr ?_)
  rw [if_pos begins]
  rcases (Tree.operands_iff Tree.words_term).mp allowed with
    ⟨f, hf, rfl⟩ | ⟨f, op, d, hf, ho, hd, rfl⟩
  · -- One factor: what follows it does not go on with the term.
    have yields_eq : Tree.yields [f] = f.yield := by simp [Tree.yields]
    rw [yields_eq] at h ⊢
    refine ensures_bind.mpr (((parts f (by simp)).factor hf h).answer fun τ t ht => ?_)
    refine ensures_bind.mpr (ensures_lookingAt.mpr ?_)
    have la : t.lookahead = next.1 := congrArg Prod.fst (show t.place = next from ht.2.1.passes)
    have single : (next.1.type == .star || next.1.type == .slash) = false := closed
    rw [la, single]
    exact ht
  · -- A factor, an operator and another term: all of it is a number, or it has no type.
    have yields_eq : Tree.yields [f, .leaf op, d] = f.yield ++ op :: d.yield := by
      simp [Tree.yields, Tree.yield]
    have left_part : ∀ t ∈ f.yield, t ∈ f.yield ++ op :: d.yield := fun t ht =>
      List.mem_append_left _ ht
    have right_part : ∀ t ∈ d.yield, t ∈ f.yield ++ op :: d.yield := fun t ht =>
      List.mem_append_right _ (List.mem_cons_of_mem op ht)
    rw [yields_eq] at h ⊢
    obtain ⟨between, inner, -, after⟩ := h.split
    refine ensures_bind.mpr (((parts f (by simp)).factor hf inner).imp (fun τ t ht => ?_)
      fun stop t ht => ⟨fun σ hσ => ht.1 _ ((uniform_product ho).mp hσ).2.1, ht.2.mono left_part⟩)
    obtain ⟨left, ht, chain_t⟩ := ht
    have here := after t ht
    refine ensures_bind.mpr (ensures_lookingAt.mpr ?_)
    rw [here.lookahead_eq, if_pos (by rcases ho with ho | ho <;> rw [ho] <;> rfl)]
    refine ensures_bind.mpr (ensures_lookahead.mpr ?_)
    rw [here.lookahead_eq]
    refine ensures_bind.mpr ((here.accept rfl).answer fun operator u hu => ?_)
    obtain ⟨rfl, behind, chain_u⟩ := hu
    -- The analyser asks three times for a string: of the left operand, of the token after the
    -- operator, and of the right operand. None of them may be one if the term is to have a type.
    refine ensures_bind.mpr (ensures_lookahead.mpr (ensures_bind.mpr (ensures_checkFactor.mpr ?_)))
    split
    · next hτ =>
      refine ⟨fun σ hσ => ?_, .inl rfl⟩
      cases ((left _).mp ((uniform_product ho).mp hσ).2.1).trans hτ
    · next hτ =>
      refine ensures_bind.mpr (ensures_typeOf.mpr (ensures_bind.mpr (ensures_checkFactor.mpr ?_)))
      split
      · next hs =>
        refine ⟨fun σ hσ => ?_, .inl rfl⟩
        obtain ⟨token, v, hy, -⟩ := (derived d (by simp)).exists_cons
        have right := ((uniform_product ho).mp hσ).2.2
        rw [hy] at right behind
        rw [behind.scopes_eq, behind.lookahead_eq] at hs
        exact right.head_ne_string hs
      · refine ensures_bind.mpr (((parts d (by simp)).term hd behind closed).imp (fun ρ x hx => ?_)
          fun stop x hx => ⟨fun σ hσ => hx.1 _ ((uniform_product ho).mp hσ).2.2,
            hx.2.mono right_part⟩)
        obtain ⟨right, hx, chain_x⟩ := hx
        refine ensures_bind.mpr (ensures_checkFactor.mpr ?_)
        split
        · next hρ =>
          refine ⟨fun σ hσ => ?_, .inl rfl⟩
          cases ((right _).mp ((uniform_product ho).mp hσ).2.2).trans hρ
        · next hρ =>
          have left_number : τ = .number := ((left τ).mpr rfl).known.resolve_right hτ
          have right_number : ρ = .number := ((right ρ).mpr rfl).known.resolve_right hρ
          refine ⟨fun σ => ?_, by simpa using hx, chain_x.trans (chain_u.trans chain_t)⟩
          rw [uniform_product ho, left, right]
          exact ⟨fun h => h.1, fun h => ⟨h, left_number.symm, right_number.symm⟩⟩

/-! ## Expressions -/

/-- The check of the last two terms passes just when the later one fits. -/
theorem ensures_checkSum_record {join : Option Join} {τ : ValueType} {chain : OperandChain}
    {Q : Unit → AnalyserState → Prop} {E : Stop → AnalyserState → Prop}
    (hs : s.chain = chain.enter.record τ) (ready : Join.Ready join chain)
    (fits : Join.Fits chain τ join → Q () s)
    (fails : ¬Join.Fits chain τ join → ∀ stop t, stop.rootKind? = some .mismatch → E stop t) :
    Ensures (checkSum join) Q E s := by
  rw [ensures_checkSum, hs]
  cases join with
  | none => exact fits trivial
  | some j =>
    rw [Option.bind_some]
    cases hm : (chain.enter.record τ).additiveMismatch? j.operator with
    | none => exact fits ((additiveMismatch?_eq_none_iff ready).mp hm)
    | some m =>
      refine fails (fun hf => ?_) _ _ rfl
      rw [(additiveMismatch?_eq_none_iff ready).mpr hf] at hm
      cases hm

/-- A term of a sum is read, and it has a type that fits, or the run stops. -/
theorem ensures_summand {α : Type} {join : Option Join} {d : Tree} {f : ValueType → Analyser α}
    {Q : α → AnalyserState → Prop} {E : Stop → AnalyserState → Prop} (hd : d.symbol = .rule .term)
    (reads : d.Evaluates limit) (h : Meets s γ taken d.yield next)
    (begins : s.lookahead.type.startsOperand)
    (closed : Production.term.goesOn next.1.type = false) (ready : Join.Ready join s.chain)
    (misfit : (∀ σ, Uniform γ d.yield σ → ¬Join.Fits s.chain σ join) →
      ∀ stop t, Refused γ d.yield stop → E stop t)
    (fit : ∀ τ t, (∀ σ, Uniform γ d.yield σ ↔ σ = τ) → Join.Fits s.chain τ join →
      Meets t γ (taken ++ d.yield) [] next → t.chain.last? = some τ → Ensures (f τ) Q E t) :
    Ensures (do
      beginTerm
      require (·.startsOperand) .invalid
      let τ ← analyser limit .term
      recordTerm τ
      checkSum join
      f τ) Q E s := by
  refine ensures_bind.mpr (ensures_beginTerm.mpr (ensures_bind.mpr (ensures_require.mpr ?_)))
  rw [if_pos begins]
  -- The chain does not matter to the term, which leaves it as it found it.
  have here : Meets { s with chain := s.chain.enter } γ taken d.yield next := h.congr rfl rfl rfl
  refine ensures_bind.mpr ((reads.term hd here closed).imp (fun τ t ht => ?_)
    fun stop t ht => misfit (fun σ hσ => absurd hσ (ht.1 σ)) _ _ ht.2)
  obtain ⟨typed, ht, chain_t⟩ := ht
  have recorded : t.chain.record τ = s.chain.enter.record τ := by rw [chain_t]
  have after : Meets { t with chain := t.chain.record τ } γ (taken ++ d.yield) [] next :=
    ht.congr rfl rfl rfl
  refine ensures_bind.mpr (ensures_recordTerm.mpr (ensures_bind.mpr ?_))
  refine ensures_checkSum_record recorded ready (fun fits => ?_) fun fails stop t mismatch => ?_
  · refine fit τ _ typed fits after ?_
    rw [recorded]
    exact s.chain.last?_record_enter τ
  · exact misfit (fun σ hσ => (typed σ).mp hσ ▸ fails) stop t (.inl mismatch)

/-- An expression is read as its derivation says. -/
theorem values_expression {join : Option Join}
    (allowed : children.map Tree.symbol ∈ Production.expression.extended.words)
    (derived : ∀ c ∈ children, c.Derived) (parts : ∀ c ∈ children, c.Evaluates limit)
    (h : Meets s γ taken (Tree.yields children) next)
    (closed : Production.expression.goesOn next.1.type = false) (ready : Join.Ready join s.chain) :
    Values (rule (analyser limit) (.expression join))
      (fun σ => Uniform γ (Tree.yields children) σ ∧ Join.Fits s.chain σ join)
      (fun t => Meets t γ (taken ++ Tree.yields children) [] next)
      (Refused γ (Tree.yields children)) s := by
  have begins : s.lookahead.type.startsOperand := h.passes.begins allowed derived
  rcases (Tree.operands_iff Tree.words_expression).mp allowed with
    ⟨d, hd, rfl⟩ | ⟨d, op, e, hd, ho, he, rfl⟩
  · -- One term: what follows it does not go on with the sum.
    have yields_eq : Tree.yields [d] = d.yield := by simp [Tree.yields]
    rw [yields_eq] at h ⊢
    have term_closed : Production.term.goesOn next.1.type = false := by
      revert closed
      cases next.1.type <;> decide
    refine ensures_summand hd (parts d (by simp)) h begins term_closed ready
      (fun misfit _ _ refused => ⟨fun σ hσ => misfit σ hσ.1 hσ.2, refused⟩)
      fun τ t typed fits ht _ => ?_
    have la : t.lookahead = next.1 := congrArg Prod.fst (show t.place = next from ht.passes)
    have single : (next.1.type == .plus || next.1.type == .minus) = false := by
      revert closed
      cases next.1.type <;> decide
    refine ensures_bind.mpr (ensures_lookingAt.mpr ?_)
    rw [la, single]
    exact ⟨fun σ => ⟨fun h => (typed σ).mp h.1, fun he => ⟨(typed σ).mpr he, he ▸ fits⟩⟩, ht⟩
  · -- A term, an operator and the rest of the sum.
    have yields_eq : Tree.yields [d, .leaf op, e] = d.yield ++ op :: e.yield := by
      simp [Tree.yields, Tree.yield]
    have left_part : ∀ t ∈ d.yield, t ∈ d.yield ++ op :: e.yield := fun t ht =>
      List.mem_append_left _ ht
    have right_part : ∀ t ∈ e.yield, t ∈ d.yield ++ op :: e.yield := fun t ht =>
      List.mem_append_right _ (List.mem_cons_of_mem op ht)
    rw [yields_eq] at h ⊢
    obtain ⟨between, inner, rest, after⟩ := h.split
    have term_closed : Production.term.goesOn between.1.type = false := by
      rw [show between.1.type = op.type from congrArg Token.type rest.1]
      rcases ho with ho | ho <;> rw [ho] <;> rfl
    refine ensures_summand hd (parts d (by simp)) inner begins term_closed ready
      (fun misfit _ _ refused => ⟨fun σ hσ => misfit σ ((uniform_sum ho).mp hσ.1).1 hσ.2,
        refused.mono left_part⟩)
      fun τ t typed fits ht last_t => ?_
    have here := after t ht
    refine ensures_bind.mpr (ensures_lookingAt.mpr ?_)
    rw [here.lookahead_eq, if_pos (by rcases ho with ho | ho <;> rw [ho] <;> rfl)]
    refine ensures_bind.mpr (ensures_lookahead.mpr ?_)
    rw [here.lookahead_eq]
    refine ensures_bind.mpr ((here.accept rfl).answer fun operator u hu => ?_)
    obtain ⟨rfl, behind, chain_u⟩ := hu
    refine ensures_bind.mpr (ensures_lookahead.mpr (ensures_bind.mpr ?_))
    have last : u.chain.last? = some τ := chain_u ▸ last_t
    -- The rest of the sum is checked against this term, so it fits just when it has its type.
    refine ((parts e (by simp)).expression he (some ⟨operator.type, u.lookahead⟩) behind closed
      (by rw [Join.Ready, last]; rfl)).imp (fun ρ x hx => ?_) fun stop x hx => ⟨fun σ hσ => ?_, ?_⟩
    · obtain ⟨rest_typed, hx⟩ := hx
      obtain ⟨has, last_eq, suits⟩ := (rest_typed ρ).mpr rfl
      cases last.symm.trans last_eq
      refine ⟨fun σ => ⟨fun h => (typed σ).mp ((uniform_sum ho).mp h.1).1, ?_⟩, by simpa using hx⟩
      rintro rfl
      refine ⟨(uniform_sum ho).mpr ⟨(typed _).mpr rfl, fun string => ?_, has⟩, fits⟩
      exact ho.resolve_right fun minus => suits minus string
    · obtain ⟨left, suits, right⟩ := (uniform_sum ho).mp hσ.1
      cases (typed σ).mp left
      refine hx.1 _ ⟨right, last, fun minus string => ?_⟩
      cases minus.symm.trans (suits string)
    · exact hx.2.mono right_part

/-- Every derivation of a value is read under a limit that its height allows. -/
theorem Tree.Derived.evaluates {d : Tree} (hd : d.Derived) (high : d.height ≤ limit) :
    d.Evaluates limit := by
  -- Each production takes one from the limit, and each of its parts is lower by one.
  induction hd generalizing limit with
  | leaf t =>
    refine ⟨?_, ?_, ?_⟩
    all_goals
      intro hs
      cases hs
  | node p children allowed derived ih =>
    cases limit with
    | zero => cases high
    | succ limit =>
      have parts : ∀ c ∈ children, c.Evaluates limit := fun c hc =>
        ih c hc ((height_le_heights hc).trans (Nat.le_of_succ_le_succ high))
      refine ⟨?factor, ?term, ?expression⟩
      case factor =>
        rintro ⟨⟩ s γ taken next h
        exact values_within (values_factor allowed parts (h.congr rfl rfl (by simp))) fun t ht =>
          ⟨ht.1.congr rfl rfl (by simp), ht.2⟩
      case term =>
        rintro ⟨⟩ s γ taken next h closed
        exact values_within (values_term allowed derived parts (h.congr rfl rfl (by simp)) closed)
          fun t ht => ⟨ht.1.congr rfl rfl (by simp), ht.2⟩
      case expression =>
        rintro ⟨⟩ join s γ taken next h closed ready
        exact values_within (values_expression allowed derived parts (h.congr rfl rfl (by simp))
          closed ready) fun t ht => ht.congr rfl rfl (by simp)

/-! ## Well-typed expressions -/

/-- Every identifier and every number among the tokens stands for a value of the type. -/
def LeavesHave (γ : Scopes) (w : List Token) (σ : ValueType) : Prop :=
  ∀ t ∈ w, t.type = .identifier ∨ t.type = .numberLiteral → operandType γ t = σ

/-- All leaves are numbers, or all are strings and `+` is the only operator. -/
def WellTyped (γ : Scopes) (w : List Token) : Prop :=
  LeavesHave γ w .number ∨
    LeavesHave γ w .string ∧ ∀ t ∈ w, t.type.isArithmetic → t.type = .plus

/-- Without string constants, the operands are the leaves. -/
theorem uniform_iff_leavesHave (proper : ∀ t ∈ w, t.type ≠ .stringLiteral) :
    Uniform γ w σ ↔ (σ = .number ∨ σ = .string) ∧ LeavesHave γ w σ ∧
      ∀ t ∈ w, t.type.isArithmetic → σ = .string → t.type = .plus := by
  rw [uniform_iff]
  refine and_congr_right fun _ => and_congr_left fun _ => forall₂_congr fun t ht => ?_
  have literal : t.type.isLiteral ↔ t.type = .identifier ∨ t.type = .numberLiteral := by
    have := proper t ht
    revert this
    cases t.type <;> simp [TokenType.isLiteral]
  rw [literal]

theorem wellTyped_iff (proper : ∀ t ∈ w, t.type ≠ .stringLiteral) :
    WellTyped γ w ↔ ∃ σ, Uniform γ w σ := by
  simp only [uniform_iff_leavesHave proper]
  constructor
  · rintro (numbers | ⟨strings, plus⟩)
    · exact ⟨.number, .inl rfl, numbers, by simp⟩
    · exact ⟨.string, .inr rfl, strings, fun t ht ha _ => plus t ht ha⟩
  · rintro ⟨σ, rfl | rfl, leaves, operators⟩
    · exact .inl leaves
    · exact .inr ⟨leaves, fun t ht ha => operators t ht ha rfl⟩

/-- An expression whose names stand for numbers and strings is read, from a fresh chain on, just
when it is well typed, and the answer is then the type of every leaf. If it is not well typed, a
mismatch stops the run. -/
theorem expression_read_iff_wellTyped {d : Tree} {e : List Token}
    (derives : d.Derives .expression e) (passes : Passes s.place e next)
    (follows : next.1.type.isArithmetic = false) (fresh : s.chain = .fresh)
    (resolved : ∀ t ∈ e, t.type = .identifier →
      ∃ x, s.scopes.lookup t.value = some x ∧ (x.type = .number ∨ x.type = .string))
    (deep : 3 * e.length ≤ limit) :
    ((∃ σ t, analyser limit (.expression none) s = .ok σ t) ↔ WellTyped s.scopes e) ∧
    (∀ σ t, analyser limit (.expression none) s = .ok σ t →
      t.place = next ∧ t.accepted = s.accepted ++ e ∧ LeavesHave s.scopes e σ) ∧
    (¬WellTyped s.scopes e → ∃ f t,
      analyser limit (.expression none) s = .error (.fault f) t ∧ f.root.kind = .mismatch) := by
  obtain ⟨derived, hs, rfl⟩ := derives
  have proper : ∀ t ∈ d.yield, t.type ≠ .stringLiteral := by
    refine derived.type_ne_stringLiteral (fun q hq => ?_) (by simp [hs])
    cases hs.symm.trans hq
    rfl
  have high : d.height ≤ limit := by
    have := derived.height_le hs
    simp only [Production.rank] at this
    omega
  have meets : Meets s s.scopes s.accepted d.yield next := by
    refine ⟨passes, rfl, rfl, fun t ht identifier x hx => ?_⟩
    obtain ⟨y, hy, known⟩ := resolved t ht identifier
    cases hx.symm.trans hy
    rcases known with known | known <;> simp [known]
  have read := (derived.evaluates high).expression hs none meets follows fresh
  rw [wellTyped_iff proper]
  cases run : analyser limit (.expression none) s with
  | ok τ t =>
    obtain ⟨typed, after⟩ := read.of_ok run
    have has : Uniform s.scopes d.yield τ := ((typed τ).mpr rfl).1
    refine ⟨⟨fun _ => ⟨τ, has⟩, fun _ => ⟨τ, t, rfl⟩⟩, ?_, fun none => absurd ⟨τ, has⟩ none⟩
    rintro σ u ⟨⟩
    exact ⟨after.passes, after.accepted_eq, ((uniform_iff_leavesHave proper).mp has).2.1⟩
  | error stop t =>
    obtain ⟨none, refused⟩ := read.of_error run
    refine ⟨⟨?_, ?_⟩, ?_, fun _ => ?_⟩
    · rintro ⟨σ, u, ⟨⟩⟩
    · rintro ⟨σ, hσ⟩
      exact absurd ⟨hσ, trivial⟩ (none σ)
    · rintro σ u ⟨⟩
    · -- All names are visible, so the operands do not fit.
      have mismatch : stop.rootKind? = some .mismatch := by
        refine refused.resolve_right ?_
        rintro ⟨-, u, hu, identifier, hidden⟩
        obtain ⟨x, hx, -⟩ := resolved u hu identifier
        cases hidden.symm.trans hx
      cases stop with
      | fault f => exact ⟨f, t, rfl, Option.some.inj mismatch⟩
      | lexical e => cases mismatch
      | tooDeep => cases mismatch

/-- A sum of strings, one of which stands in parentheses. -/
def greeting : List Token :=
  [⟨.identifier, "x", ⟨3, 6⟩⟩, ⟨.plus, "+", ⟨3, 8⟩⟩, ⟨.leftParen, "(", ⟨3, 10⟩⟩,
    ⟨.identifier, "y", ⟨3, 11⟩⟩, ⟨.rightParen, ")", ⟨3, 12⟩⟩]

/-- Its derivation. -/
def greetingTree : Tree :=
  .node .expression [.node .term [.node .factor [.leaf ⟨.identifier, "x", ⟨3, 6⟩⟩]],
    .leaf ⟨.plus, "+", ⟨3, 8⟩⟩,
    .node .expression [.node .term [.node .factor [.leaf ⟨.leftParen, "(", ⟨3, 10⟩⟩,
      .node .expression [.node .term [.node .factor [.leaf ⟨.identifier, "y", ⟨3, 11⟩⟩]]],
      .leaf ⟨.rightParen, ")", ⟨3, 12⟩⟩]]]]

/-- The analyser in front of it, in a loop that declares one of its names. -/
def beforeGreeting : AnalyserState where
  lookahead := ⟨.identifier, "x", ⟨3, 6⟩⟩
  input := .ofList ((greeting.tail ++ [(⟨.semicolon, ";", ⟨3, 13⟩⟩ : Token)]).map .ok)
  scopes := (Scopes.empty.declare "x" ⟨"x", .string, ⟨1, 7⟩⟩).enter.declare "y"
    ⟨"y", .string, ⟨2, 6⟩⟩
  chain := .fresh
  events := #[]
  notices := #[]

theorem greetingTree_derives : greetingTree.Derives .expression greeting := by
  refine ⟨?_, rfl, rfl⟩
  have leaf (t : Token) : (Tree.leaf t).Derived := .leaf t
  simp only [greetingTree, Tree.derived_node_iff, List.forall_mem_cons, leaf, List.map_cons,
    List.map_nil, Tree.symbol, List.not_mem_nil, false_imp_iff, implies_true, and_true, true_and]
  decide

theorem expression_read_greeting :
    (∃ σ t, analyser 15 (.expression none) beforeGreeting = .ok σ t) ∧
      ∀ σ t, analyser 15 (.expression none) beforeGreeting = .ok σ t →
        t.accepted = greeting ∧ σ = .string := by
  have read := expression_read_iff_wellTyped (s := beforeGreeting) greetingTree_derives
    (by repeat' first | rfl | refine ⟨rfl, _, _, rfl, ?_⟩) (by rfl) (by rfl)
    (by
      simp [greeting, beforeGreeting, Scopes.lookup, Scopes.lookupLoops, Scopes.declare,
        Scopes.enter, Scopes.empty, Dictionary.insert, Dictionary.insertEntry, Dictionary.empty,
        Dictionary.find?, Dictionary.findEntry])
    (by decide : 3 * greeting.length ≤ 15)
  have typed : WellTyped beforeGreeting.scopes greeting := by
    unfold WellTyped LeavesHave
    decide
  refine ⟨read.1.mpr typed, fun σ t run => ?_⟩
  obtain ⟨-, accepted, leaves⟩ := read.2.1 σ t run
  refine ⟨accepted, (leaves _ List.mem_cons_self (.inl rfl)).symm.trans rfl⟩

end BlockLang
