import BlockLang.Proofs.Reading.Walk

/-!
# Operands

What it takes for the tokens of an expression to have one type: all operands have it, and the
operators suit it. The type of an operand is told by the scopes. The operand chain of a sum looks at
two neighbouring terms at a time; that is enough, because each term has a type of its own and equal
neighbours are all equal.

## Main definitions

* `Uniform γ w σ`: under the scopes `γ`, the operands among the tokens `w` have the type `σ`, and
  the operators suit it
* `OperandChain.last?`: the type of the term that came last
* `Join.Ready`, `Join.Fits`: the chain is ready for an expression, and a type fits its end

## Main results

* `uniform_sum`, `uniform_product`: what operators ask of the tokens around them
* `additiveMismatch?_eq_none_iff`: what the chain asks of the last two terms
* `hasType_iff_uniform`: declarations give the same types as the scopes that hold them
-/

namespace BlockLang

/-- The operands among the tokens are all numbers, or all strings with `+` as the only operator. -/
structure Uniform (γ : Scopes) (w : List Token) (σ : ValueType) : Prop where
  known : σ = .number ∨ σ = .string
  operands : ∀ t ∈ w, t.type.isLiteral → operandType γ t = σ
  operators : ∀ t ∈ w, t.type.isArithmetic → σ = .string → t.type = .plus

variable {γ : Scopes} {u v w : List Token} {token : Token} {σ τ : ValueType}

theorem uniform_iff : Uniform γ w σ ↔ (σ = .number ∨ σ = .string) ∧
    (∀ t ∈ w, t.type.isLiteral → operandType γ t = σ) ∧
    ∀ t ∈ w, t.type.isArithmetic → σ = .string → t.type = .plus :=
  ⟨fun h => ⟨h.known, h.operands, h.operators⟩, fun h => ⟨h.1, h.2.1, h.2.2⟩⟩

theorem uniform_append : Uniform γ (u ++ v) σ ↔ Uniform γ u σ ∧ Uniform γ v σ := by
  simp only [uniform_iff, List.mem_append, or_imp, forall_and]
  tauto

theorem uniform_cons : Uniform γ (token :: w) σ ↔ Uniform γ [token] σ ∧ Uniform γ w σ := by
  rw [← List.singleton_append, uniform_append]

theorem uniform_singleton : Uniform γ [token] σ ↔ (σ = .number ∨ σ = .string) ∧
    (token.type.isLiteral → operandType γ token = σ) ∧
    (token.type.isArithmetic → σ = .string → token.type = .plus) := by
  simp [uniform_iff]

/-! ## Types of tokens -/

/-- A token that stands for a value of a known type has that type. -/
theorem uniform_operand (ht : token.type.isLiteral) (known : operandType γ token ≠ .unknown) :
    Uniform γ [token] σ ↔ σ = operandType γ token := by
  have operator : token.type.isArithmetic = false := by
    revert ht
    cases token.type <;> simp [TokenType.isLiteral, TokenType.isArithmetic]
  rw [uniform_singleton, operator]
  constructor
  · exact fun h => (h.2.1 ht).symm
  · rintro rfl
    refine ⟨?_, fun _ => rfl, by simp⟩
    revert known
    cases operandType γ token <;> simp

theorem uniform_number (ht : token.type = .numberLiteral) :
    Uniform γ [token] σ ↔ σ = .number := by
  have number : operandType γ token = .number := by rw [operandType, ht]
  rw [uniform_operand (by rw [ht]; rfl) (by rw [number]; decide), number]

theorem operandType_identifier {x : Variable} (ht : token.type = .identifier)
    (hx : γ.lookup token.value = some x) : operandType γ token = x.type := by
  simp [operandType, ht, hx]

/-- A name that stands for nothing has no type. -/
theorem not_uniform_of_lookup_eq_none (ht : token.type = .identifier)
    (hx : γ.lookup token.value = none) : ¬Uniform γ [token] σ := by
  intro h
  have typed : operandType γ token = σ := h.operands token List.mem_cons_self (by rw [ht]; rfl)
  have unknown : operandType γ token = .unknown := by simp [operandType, ht, hx]
  rcases h.known with rfl | rfl <;> cases typed.symm.trans unknown

/-- Parentheses say nothing about types. -/
theorem uniform_parenthesized {l r : Token} (hl : l.type = .leftParen)
    (hr : r.type = .rightParen) : Uniform γ (l :: (w ++ [r])) σ ↔ Uniform γ w σ := by
  rw [uniform_cons, uniform_append, uniform_singleton, uniform_singleton, hl, hr]
  constructor
  · exact fun h => h.2.1
  · exact fun h => ⟨⟨h.known, by simp [TokenType.isLiteral, TokenType.isArithmetic]⟩, h,
      h.known, by simp [TokenType.isLiteral, TokenType.isArithmetic]⟩

/-- Terms around an operator have a type that suits it. -/
theorem uniform_operation (hl : token.type.isLiteral = false) (ha : token.type.isArithmetic) :
    Uniform γ (u ++ token :: w) σ ↔
      Uniform γ u σ ∧ (σ = .string → token.type = .plus) ∧ Uniform γ w σ := by
  rw [uniform_append, uniform_cons, uniform_singleton]
  constructor
  · exact fun h => ⟨h.1, h.2.1.2.2 ha, h.2.2⟩
  · exact fun h => ⟨h.1, ⟨h.1.known, by simp [hl], fun _ => h.2.1⟩, h.2.2⟩

/-- Factors around an operator are numbers. -/
theorem uniform_product (ho : token.type = .star ∨ token.type = .slash) :
    Uniform γ (u ++ token :: w) σ ↔
      σ = .number ∧ Uniform γ u .number ∧ Uniform γ w .number := by
  rw [uniform_operation (by rcases ho with ho | ho <;> rw [ho] <;> rfl)
    (by rcases ho with ho | ho <;> rw [ho] <;> rfl)]
  constructor
  · rintro ⟨left, suits, right⟩
    rcases left.known with rfl | rfl
    · exact ⟨rfl, left, right⟩
    · rcases ho with ho | ho <;> cases ho.symm.trans (suits rfl)
  · rintro ⟨rfl, left, right⟩
    exact ⟨left, by simp, right⟩

/-- Terms around an operator have one type, with `+` alone for strings. -/
theorem uniform_sum (ho : token.type = .plus ∨ token.type = .minus) :
    Uniform γ (u ++ token :: w) σ ↔
      Uniform γ u σ ∧ (σ = .string → token.type = .plus) ∧ Uniform γ w σ :=
  uniform_operation (by rcases ho with ho | ho <;> rw [ho] <;> rfl)
    (by rcases ho with ho | ho <;> rw [ho] <;> rfl)

/-- The first token of a number is no string, whatever it is. -/
theorem Uniform.head_ne_string (h : Uniform γ (token :: w) .number) :
    operandType γ token ≠ .string := by
  have typed := h.operands token List.mem_cons_self
  revert typed
  rw [operandType]
  cases token.type <;> simp +contextual [TokenType.isLiteral]

/-! ## Chains -/

/-- The type of the term that came last. -/
def OperandChain.last? (chain : OperandChain) : Option ValueType :=
  match chain.depth with
  | .none => none
  | .first => some chain.left
  | .second | .nested => some chain.right

/-- The chain is ready for an expression that begins a sum or goes on with one. -/
def Join.Ready : Option Join → OperandChain → Prop
  | none, chain => chain = .fresh
  | some _, chain => chain.last?.isSome

/-- A term of the type fits the end of the chain. -/
def Join.Fits (chain : OperandChain) (σ : ValueType) : Option Join → Prop
  | none => True
  | some j => chain.last? = some σ ∧ (j.operator = .minus → σ ≠ .string)

@[simp] theorem OperandChain.last?_record_enter (chain : OperandChain) (τ : ValueType) :
    (chain.enter.record τ).last? = some τ := by
  obtain ⟨depth, left, right⟩ := chain
  cases depth <;> rfl

/-- The check of the last two terms finds nothing wrong just when the later one fits. -/
theorem additiveMismatch?_eq_none_iff {chain : OperandChain} {j : Join} {τ : ValueType}
    (h : Join.Ready (some j) chain) :
    (chain.enter.record τ).additiveMismatch? j.operator = none ↔ Join.Fits chain τ (some j) := by
  obtain ⟨depth, left, right⟩ := chain
  have meets (prev : ValueType) :
      (if j.operator = .minus ∧ (prev = .string ∨ τ = .string) then
          some (Mismatch.stringDifference j.operator)
        else if prev ≠ τ then some (.mixedSum j.operator prev τ) else none) = none ↔
        some prev = some τ ∧ (j.operator = .minus → τ ≠ .string) := by
    grind
  cases depth with
  | none => simp [Join.Ready, OperandChain.last?] at h
  | first => exact meets left
  | second => exact meets right
  | nested => exact meets right

/-! ## Operands of expressions -/

/-- No string constant stands in an expression. -/
theorem Tree.Derived.type_ne_stringLiteral {d : Tree} (hd : d.Derived)
    (hs : ∀ q, d.symbol = .rule q → q.isValue) (hl : d.symbol ≠ .terminal .stringLiteral) :
    ∀ t ∈ d.yield, t.type ≠ .stringLiteral := by
  induction hd with
  | leaf t => simpa [yield, symbol] using hl
  | node p children allowed _ ih =>
    have hp : p.isValue := hs p rfl
    have none : Symbol.terminal .stringLiteral ∉ children.map symbol := by
      have all : ∀ ss ∈ p.extended.words, Symbol.terminal .stringLiteral ∉ ss := by
        revert hp
        cases p <;> decide
      exact all _ allowed
    intro t ht
    rw [yield, yields_eq_flatMap, List.mem_flatMap] at ht
    obtain ⟨c, hc, ht⟩ := ht
    refine ih c hc (fun q hq => ?_) (fun he => none (he ▸ List.mem_map_of_mem hc)) t ht
    exact isValue_of_mem_words allowed hp (hq ▸ List.mem_map_of_mem hc)

/-! ## Declarations -/

/-- Declarations give an operand the same type as the scopes that hold them. -/
theorem typeOf_eq_some_iff {δ : Declarations} (ht : token.type.isLiteral)
    (known : σ = .number ∨ σ = .string) :
    δ.typeOf token = some σ ↔ operandType δ.scopes token = σ := by
  rw [Declarations.typeOf, operandType, δ.lookup_scopes]
  revert ht
  cases token.type <;> simp [TokenType.isLiteral]
  · cases δ.lookup token.value with
    | none => rcases known with rfl | rfl <;> simp
    | some x => simp

theorem hasType_iff_uniform {δ : Declarations} : HasType δ w σ ↔ Uniform δ.scopes w σ := by
  rw [hasType_iff, uniform_iff]
  refine and_congr_right fun known => and_congr_left fun _ => ?_
  exact forall₂_congr fun t _ => imp_congr_right fun ht => typeOf_eq_some_iff ht known

end BlockLang
