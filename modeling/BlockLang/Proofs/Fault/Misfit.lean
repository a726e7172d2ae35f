import BlockLang.Proofs.Reading.Chains

/-!
# Operands that do not fit

Where a mismatch is found, the trace so far tells why. For `+` and `-` the last operator of a sum
does not suit the terms around it, while every operator before it does. For `*` and `/` the factor
before the operator is a string, or the token after it is, or the term after it turns out to be one.

## Main definitions

* `TokenType.Suits`: what `+` and `-` ask of the terms around them
* `OpenSum`: a sum as far as it was read
* `Misfit γ lookahead before op token m`: behind the trace `before`, the operands of `op` do not
  fit, and this is reported at `token`

## Main results

* `additiveMismatch?_eq`: what a chain says of its last two terms
* `Misfit.accepted_eq`: the token is the one behind the operator
* `Misfit.quotes`: the message quotes the operator
* `leftParen_of_string`: what a term begins with that turns out to be a string
-/

namespace BlockLang

variable {γ : Scopes} {σ τ : ValueType} {op token lookahead : Token} {before : List Event}
  {m : Mismatch} {d : Tree}

/-! ## Operators of a sum -/

/-- Terms of these types may stand around the operator: they have one type, and none around `-` is a
string. -/
def TokenType.Suits (operator : TokenType) (σ τ : ValueType) : Prop :=
  σ = τ ∧ (operator = .minus → σ ≠ .string ∧ τ ≠ .string)

/-- Why terms of these types may not stand around the operator. -/
def TokenType.misfit (operator : TokenType) (σ τ : ValueType) : Mismatch :=
  if operator = .minus ∧ (σ = .string ∨ τ = .string) then .stringDifference operator
  else .mixedSum operator σ τ

/-- What a chain says of its last two terms. -/
theorem additiveMismatch?_eq {chain : OperandChain} (h : chain.last? = some σ)
    (operator : TokenType) (τ : ValueType) :
    ((chain.enter.record τ).additiveMismatch? operator = none ∧ operator.Suits σ τ) ∨
      ((chain.enter.record τ).additiveMismatch? operator = some (operator.misfit σ τ) ∧
        ¬operator.Suits σ τ) := by
  have slots : (chain.enter.record τ).additiveMismatch? operator =
      if operator = .minus ∧ (σ = .string ∨ τ = .string) then some (.stringDifference operator)
      else if σ ≠ τ then some (.mixedSum operator σ τ) else none := by
    obtain ⟨depth, left, right⟩ := chain
    cases depth with
    | none => cases h
    | first | second | nested =>
      cases h
      rfl
  rw [slots, TokenType.misfit, TokenType.Suits]
  grind

/-- A sum as far as it was read: its first term, or a sum with one more operator and term. -/
inductive OpenSum
  | term (d : Tree)
  | add (front : OpenSum) (op : Token) (d : Tree)

namespace OpenSum

/-- What the trace tells of it, from the begin of the first expression on. -/
def trace : OpenSum → List Event
  | term d => .begin Production.expression.name :: d.trace
  | add front op d => front.trace ++ .terminal op :: .begin Production.expression.name :: d.trace

/-- The term that was read last. -/
def last : OpenSum → Tree
  | term d | add _ _ d => d

/-- Terms stand between operators. -/
def Proper : OpenSum → Prop
  | term d => d.Derived ∧ d.symbol = .rule .term
  | add front op d => front.Proper ∧ (op.type = .plus ∨ op.type = .minus) ∧ d.Derived ∧
      d.symbol = .rule .term

/-- Every operator suits the terms around it. -/
def Suits (γ : Scopes) : OpenSum → Prop
  | term _ => True
  | add front op d => front.Suits γ ∧ op.type.Suits (front.last.valueType γ) (d.valueType γ)

/-- The chain that the sum has come to. -/
def chain (γ : Scopes) : OpenSum → OperandChain
  | term d => OperandChain.fresh.enter.record (d.valueType γ)
  | add front _ d => (front.chain γ).enter.record (d.valueType γ)

theorem last?_chain (γ : Scopes) (sum : OpenSum) :
    (sum.chain γ).last? = some (sum.last.valueType γ) := by
  cases sum <;> exact OperandChain.last?_record_enter _ _

end OpenSum

/-! ## Misfits -/

/-- The operator that a mismatch is about. -/
def Mismatch.operator : Mismatch → TokenType
  | stringDifference op | mixedSum op _ _ | stringFactor op _ => op

/-- The message about a mismatch quotes the operator. -/
theorem Mismatch.quotes (m : Mismatch) :
    ∃ front back, m.message = front ++ "'" ++ m.operator.displayName ++ "'" ++ back := by
  have opening : "type mismatch: '" = "type mismatch: " ++ "'" := rfl
  cases m with
  | stringDifference op =>
    have closing : "' is not defined for " = "'" ++ " is not defined for " := rfl
    unfold message operator
    simp only [opening, closing, String.append_assoc]
    exact ⟨_, _, rfl⟩
  | mixedSum op left right =>
    have closing : "' requires operands of the same type, got " =
        "'" ++ " requires operands of the same type, got " := rfl
    unfold message operator
    simp only [opening, closing, String.append_assoc]
    exact ⟨_, _, rfl⟩
  | stringFactor op side =>
    have before : " operand of '" = " operand of " ++ "'" := rfl
    have behind : "' is " = "'" ++ " is " := rfl
    unfold message operator
    refine ⟨"type mismatch: " ++ side ++ " operand of ", " is " ++ ValueType.string.name, ?_⟩
    simp only [before, behind, String.append_assoc]

/-- Behind a trace, with the scopes `γ` and before the lookahead, the operands of an operator do not
fit, and this is reported at a token. -/
inductive Misfit (γ : Scopes) (lookahead : Token) : List Event → Token → Token → Mismatch → Prop
  | sum {outside : List Event} {opener op token : Token} {rest : List Token} {front : OpenSum}
      {d : Tree} (opens : opener.type = .colonEqual ∨ opener.type = .leftParen)
      (proper : (front.add op d).Proper) (earlier : front.Suits γ)
      (breaks : ¬op.type.Suits (front.last.valueType γ) (d.valueType γ))
      (yield_eq : d.yield = token :: rest) :
      Misfit γ lookahead (outside ++ .terminal opener :: (front.add op d).trace) op token
        (op.type.misfit (front.last.valueType γ) (d.valueType γ))
  | left {outside : List Event} {op : Token} {f : Tree}
      (operator : op.type = .star ∨ op.type = .slash)
      (derived : f.Derived) (factor : f.symbol = .rule .factor) (string : f.valueType γ = .string) :
      Misfit γ lookahead
        (outside ++ .begin Production.term.name :: f.trace ++ [.terminal op]) op lookahead
        (.stringFactor op.type "left")
  | next {outside : List Event} {op : Token} {f : Tree}
      (operator : op.type = .star ∨ op.type = .slash)
      (derived : f.Derived) (factor : f.symbol = .rule .factor)
      (string : lookahead.type = .stringLiteral ∨ lookahead.type = .identifier ∧
        ∃ x, γ.lookup lookahead.value = some x ∧ x.type = .string) :
      Misfit γ lookahead
        (outside ++ .begin Production.term.name :: f.trace ++ [.terminal op]) op lookahead
        (.stringFactor op.type "right")
  | right {outside : List Event} {op token : Token} {rest : List Token} {f d : Tree}
      (operator : op.type = .star ∨ op.type = .slash)
      (derived : f.Derived) (factor : f.symbol = .rule .factor)
      (derived' : d.Derived) (term : d.symbol = .rule .term) (string : d.valueType γ = .string)
      (yield_eq : d.yield = token :: rest) (paren : token.type = .leftParen) :
      Misfit γ lookahead
        (outside ++ .begin Production.term.name :: f.trace ++ .terminal op :: d.trace) op token
        (.stringFactor op.type "right")

namespace Misfit

/-- The token is the one behind the operator, and the operator was accepted. -/
theorem accepted_eq (h : Misfit γ lookahead before op token m) :
    ∃ front rest, accepted before ++ [lookahead] = front ++ op :: token :: rest := by
  cases h with
  | @sum outside opener _ _ rest front d _ proper _ _ yield_eq =>
    -- The tokens of the last term are behind the operator, and the first of them is the one.
    have taken : accepted d.trace = token :: rest := yield_eq ▸ proper.2.2.1.accepted_trace
    refine ⟨accepted outside ++ opener :: accepted front.trace, rest ++ [lookahead], ?_⟩
    simp [OpenSum.trace, accepted_terminal_cons, accepted_begin_cons, taken]
  | @left outside _ f =>
    exact ⟨accepted outside ++ accepted f.trace, [], by simp [accepted_begin_cons]⟩
  | @next outside _ f =>
    exact ⟨accepted outside ++ accepted f.trace, [], by simp [accepted_begin_cons]⟩
  | @right outside _ _ rest f d _ _ _ derived' _ _ yield_eq _ =>
    have taken : accepted d.trace = token :: rest := yield_eq ▸ derived'.accepted_trace
    refine ⟨accepted outside ++ accepted f.trace, rest ++ [lookahead], ?_⟩
    simp [accepted_terminal_cons, accepted_begin_cons, taken]

theorem isArithmetic (h : Misfit γ lookahead before op token m) : op.type.isArithmetic := by
  cases h with
  | sum _ proper => rcases proper.2.1 with ho | ho <;> rw [ho] <;> rfl
  | left operator | next operator | right operator =>
    rcases operator with ho | ho <;> rw [ho] <;> rfl

theorem operator_eq (h : Misfit γ lookahead before op token m) : m.operator = op.type := by
  cases h with
  | sum =>
    rw [TokenType.misfit]
    split <;> rfl
  | left | next | right => rfl

/-- The message quotes the operator by its spelling. -/
theorem quotes (h : Misfit γ lookahead before op token m) :
    ∃ text front back, op.type.spelling? = some text ∧
      m.message = front ++ "'" ++ text ++ "'" ++ back := by
  obtain ⟨text, spelled⟩ : ∃ text, op.type.spelling? = some text := by
    have arithmetic := h.isArithmetic
    revert arithmetic
    cases op.type <;> simp [TokenType.isArithmetic, TokenType.spelling?]
  obtain ⟨front, back, quoted⟩ := m.quotes
  rw [h.operator_eq, TokenType.displayName, spelled] at quoted
  exact ⟨text, front, back, spelled, quoted⟩

end Misfit

/-- The token of an operand that is a string is a string constant or the name of a string. -/
theorem of_operandType_eq_string (h : operandType γ token = .string) :
    token.type = .stringLiteral ∨ token.type = .identifier ∧
      ∃ x, γ.lookup token.value = some x ∧ x.type = .string := by
  cases ht : token.type with
  | stringLiteral => exact .inl rfl
  | identifier =>
    cases found : γ.lookup token.value with
    | none => simp [operandType, ht, found] at h
    | some x =>
      rw [operandType_identifier ht found] at h
      exact .inr ⟨rfl, x, rfl, h⟩
  | _ => simp [operandType, ht] at h

/-- A term that is a string, but does not begin with one, begins with a parenthesis. -/
theorem leftParen_of_string {rest : List Token} (derived : d.Derived)
    (term : d.symbol = .rule .term) (string : d.valueType γ = .string)
    (yield_eq : d.yield = token :: rest) (plain : operandType γ token ≠ .string) :
    token.type = .leftParen := by
  obtain ⟨children, rfl⟩ := Tree.symbol_eq_rule.mp term
  obtain ⟨allowed, parts⟩ := Tree.derived_node_iff.mp derived
  rcases (Tree.operands_iff Tree.words_term).mp allowed with
    ⟨f, hf, rfl⟩ | ⟨f, o, d, -, -, -, rfl⟩
  · obtain ⟨children, rfl⟩ := Tree.symbol_eq_rule.mp hf
    have factor := (Tree.derived_node_iff.mp (parts _ List.mem_cons_self)).1
    rcases Tree.factor_children factor with ⟨t, -, rfl⟩ | ⟨t, -, rfl⟩ | ⟨l, e, r, hl, -, -, rfl⟩
    · obtain rfl : t = token := (List.cons.inj yield_eq).1
      exact absurd string plain
    · obtain rfl : t = token := (List.cons.inj yield_eq).1
      exact absurd string plain
    · obtain rfl : l = token := (List.cons.inj yield_eq).1
      exact hl
  · -- A product is a number.
    cases string

end BlockLang
