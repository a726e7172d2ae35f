import BlockLang.Proofs.Run.Place

/-!
# The reference grammar and its derivation trees

The productions with their right-hand sides, in the notation of the grammar file: sequences, choices
and options. Programs may use one thing more than the reference grammar gives: a statement list may
end in a semicolon. A derivation tree has tokens for leaves, and the children of each node, read as
productions and token types, match a right-hand side of its production.

## Main definitions

* `Symbol`, `Ebnf`: what right-hand sides are made of
* `Production.reference`, `Production.extended`: the right-hand sides of the grammar file, and those
  that programs may use
* `Tree`: tokens and productions with what they are made of
* `Tree.yield`, `Tree.trace`: the tokens of a tree, and the walk around it
* `Tree.Derived`, `Tree.Derives`: the tree is a derivation, and what it derives
* `IsProgram`: the tokens have a derivation from the first production

## Main results

* `Tree.derived_node_iff`: what the children of a node are
* `Tree.Derived.type_ne_endOfFile`: no derivation holds the end of the file
-/

namespace BlockLang

/-- The terminal symbol joins two operands. -/
def TokenType.isArithmetic : TokenType → Bool
  | plus | minus | star | slash => true
  | _ => false

/-- A token type or a production. -/
inductive Symbol
  | terminal (t : TokenType)
  | rule (p : Production)
  deriving DecidableEq, Repr

/-- A right-hand side: symbols in sequence, with choices and options. -/
inductive Ebnf
  | symbol (s : Symbol)
  | sequence (a b : Ebnf)
  | choice (a b : Ebnf)
  | option (a : Ebnf)
  deriving Repr

namespace Ebnf

instance : Append Ebnf := ⟨sequence⟩

instance : OrOp Ebnf := ⟨choice⟩

/-- A token of a type. -/
def token (t : TokenType) : Ebnf := symbol (.terminal t)

/-- A part that a production describes. -/
def part (p : Production) : Ebnf := symbol (.rule p)

/-- The sequences of symbols that a right-hand side allows. -/
def words : Ebnf → List (List Symbol)
  | symbol s => [[s]]
  | sequence a b => a.words.flatMap fun v => b.words.map (v ++ ·)
  | choice a b => a.words ++ b.words
  | option a => [] :: a.words

@[simp] theorem words_token (t : TokenType) : (token t).words = [[.terminal t]] := rfl

@[simp] theorem words_part (p : Production) : (part p).words = [[.rule p]] := rfl

@[simp] theorem words_append (a b : Ebnf) :
    (a ++ b).words = a.words.flatMap fun v => b.words.map (v ++ ·) := rfl

@[simp] theorem words_or (a b : Ebnf) : (a ||| b).words = a.words ++ b.words := rfl

@[simp] theorem words_option (a : Ebnf) : (option a).words = [] :: a.words := rfl

end Ebnf

open Ebnf in
/-- The right-hand side of a production in the grammar file. -/
def Production.reference : Production → Ebnf
  | .statementPart => token .beginKeyword ++ part .statementList ++ token .endKeyword
  | .statementList => part .statement ++ option (token .semicolon ++ part .statementList)
  | .statement =>
    part .assignmentStatement ||| part .ifStatement ||| part .whileStatement |||
      part .procedureStatement ||| part .untilStatement ||| part .forStatement
  | .assignmentStatement =>
    token .identifier ++ token .colonEqual ++ (part .expression ||| token .stringLiteral)
  | .ifStatement =>
    token .ifKeyword ++ part .condition ++ token .thenKeyword ++ part .statementList ++
      (token .endKeyword ++ token .ifKeyword |||
        token .elseKeyword ++ part .statementList ++ token .endKeyword ++ token .ifKeyword)
  | .whileStatement =>
    token .whileKeyword ++ part .condition ++ token .loopKeyword ++ part .statementList ++
      token .endKeyword ++ token .loopKeyword
  | .untilStatement =>
    token .doKeyword ++ part .statementList ++ token .untilKeyword ++ part .condition
  | .forStatement =>
    token .forKeyword ++ token .leftParen ++ part .assignmentStatement ++ token .semicolon ++
      part .condition ++ token .semicolon ++ part .assignmentStatement ++ token .rightParen ++
      token .doKeyword ++ part .statementList ++ token .endKeyword ++ token .loopKeyword
  | .procedureStatement =>
    token .callKeyword ++ token .identifier ++ token .leftParen ++ part .argumentList ++
      token .rightParen
  | .argumentList => token .identifier ++ option (token .comma ++ part .argumentList)
  | .condition =>
    token .identifier ++ part .conditionalOperator ++
      (token .identifier ||| token .numberLiteral ||| token .stringLiteral)
  | .conditionalOperator =>
    token .less ||| token .lessEqual ||| token .equal ||| token .slashEqual ||| token .greater |||
      token .greaterEqual
  | .expression => part .term ++ option ((token .plus ||| token .minus) ++ part .expression)
  | .term => part .factor ++ option ((token .star ||| token .slash) ++ part .term)
  | .factor =>
    token .identifier ||| token .numberLiteral |||
      token .leftParen ++ part .expression ++ token .rightParen

open Ebnf in
/-- The right-hand side that programs may use: beyond the grammar file, a statement list may end in
a semicolon. -/
def Production.extended : Production → Ebnf
  | .statementList => Production.statementList.reference ||| part .statement ++ token .semicolon
  | p => p.reference

/-! ## Trees -/

/-- A token, or a production with what it is made of. -/
inductive Tree
  | leaf (token : Token)
  | node (p : Production) (children : List Tree)

namespace Tree

/-- The symbol that a tree stands for. -/
def symbol : Tree → Symbol
  | leaf t => .terminal t.type
  | node p _ => .rule p

mutual

/-- The tokens of a tree from left to right. -/
def yield : Tree → List Token
  | leaf t => [t]
  | node _ children => yields children

/-- The tokens of some trees in turn. -/
def yields : List Tree → List Token
  | [] => []
  | c :: rest => c.yield ++ yields rest

end

mutual

/-- The walk around a tree: a node is begun, its children are walked in order, and it is ended. -/
def trace : Tree → List Event
  | leaf t => [.terminal t]
  | node p children => .begin p.name :: traces children ++ [.finish p.name]

/-- The walk around some trees in turn. -/
def traces : List Tree → List Event
  | [] => []
  | c :: rest => c.trace ++ traces rest

end

/-- Every node is made of what a right-hand side of its production allows. -/
inductive Derived : Tree → Prop
  | leaf (t : Token) : Derived (leaf t)
  | node (p : Production) (children : List Tree)
      (allowed : children.map symbol ∈ p.extended.words) (parts : ∀ c ∈ children, Derived c) :
      Derived (node p children)

/-- The tree is a derivation of tokens from a production. -/
structure Derives (d : Tree) (p : Production) (w : List Token) : Prop where
  derived : d.Derived
  symbol_eq : d.symbol = .rule p
  yield_eq : d.yield = w

@[simp] theorem yields_eq_flatMap (children : List Tree) :
    yields children = children.flatMap yield := by
  induction children with
  | nil => rfl
  | cons c rest ih => simp [yields, ih]

theorem symbol_eq_terminal {d : Tree} {t : TokenType} :
    d.symbol = .terminal t ↔ ∃ token, d = leaf token ∧ token.type = t := by
  cases d <;> simp [symbol]

theorem symbol_eq_rule {d : Tree} {p : Production} :
    d.symbol = .rule p ↔ ∃ children, d = node p children := by
  cases d <;> simp [symbol, eq_comm]

/-- What the children of a node are. -/
theorem derived_node_iff {p : Production} {children : List Tree} :
    (node p children).Derived ↔
      children.map symbol ∈ p.extended.words ∧ ∀ c ∈ children, c.Derived :=
  ⟨fun h => by cases h with | node _ _ allowed parts => exact ⟨allowed, parts⟩,
    fun h => .node p children h.1 h.2⟩

mutual

/-- Whether a tree is a derivation, as it is checked. -/
def isDerived : Tree → Bool
  | leaf _ => true
  | node p children => decide (children.map symbol ∈ p.extended.words) && areDerived children

/-- Whether some trees are derivations, as it is checked. -/
def areDerived : List Tree → Bool
  | [] => true
  | c :: rest => c.isDerived && areDerived rest

end

mutual

theorem isDerived_iff : ∀ d : Tree, d.isDerived ↔ d.Derived
  | leaf t => iff_of_true rfl (.leaf t)
  | node p children => by
    rw [isDerived, Bool.and_eq_true, decide_eq_true_eq, areDerived_iff children, derived_node_iff]

theorem areDerived_iff : ∀ children : List Tree, areDerived children ↔ ∀ c ∈ children, c.Derived
  | [] => by simp [areDerived]
  | c :: rest => by
    rw [areDerived, Bool.and_eq_true, isDerived_iff c, areDerived_iff rest, List.forall_mem_cons]

end

instance (d : Tree) : Decidable d.Derived := decidable_of_iff _ d.isDerived_iff

/-- No right-hand side holds the end of the file. -/
theorem endOfFile_notMem_words {p : Production} {w : List Symbol} (h : w ∈ p.extended.words) :
    Symbol.terminal .endOfFile ∉ w := by
  have all : ∀ w ∈ p.extended.words, Symbol.terminal .endOfFile ∉ w := by cases p <;> decide
  exact all w h

/-- No derivation holds the end of the file. -/
theorem Derived.type_ne_endOfFile {d : Tree} (h : d.Derived)
    (hs : d.symbol ≠ .terminal .endOfFile) : ∀ t ∈ d.yield, t.type ≠ .endOfFile := by
  induction h with
  | leaf t => simpa [yield, symbol] using hs
  | node p children allowed _ ih =>
    intro t ht
    simp only [yield, yields_eq_flatMap, List.mem_flatMap] at ht
    obtain ⟨c, hc, ht⟩ := ht
    refine ih c hc (fun he => endOfFile_notMem_words allowed ?_) t ht
    exact he ▸ List.mem_map_of_mem hc

/-! ## What nodes are made of -/

variable {children : List Tree}

theorem factor_children (allowed : children.map symbol ∈ Production.factor.extended.words) :
    (∃ t, t.type = .identifier ∧ children = [leaf t]) ∨
      (∃ t, t.type = .numberLiteral ∧ children = [leaf t]) ∨
      ∃ l e r, l.type = .leftParen ∧ e.symbol = .rule .expression ∧ r.type = .rightParen ∧
        children = [leaf l, e, leaf r] := by
  change _ ∈ ([[.terminal .identifier], [.terminal .numberLiteral],
    [.terminal .leftParen, .rule .expression, .terminal .rightParen]] :
    List (List Symbol)) at allowed
  simp only [List.mem_cons, List.not_mem_nil, or_false, List.map_eq_cons_iff,
    List.map_eq_nil_iff, symbol_eq_terminal] at allowed
  rcases allowed with ⟨_, _, rfl, ⟨t, rfl, ht⟩, rfl⟩ | ⟨_, _, rfl, ⟨t, rfl, ht⟩, rfl⟩ |
    ⟨_, _, rfl, ⟨l, rfl, hl⟩, e, _, rfl, he, _, _, rfl, ⟨r, rfl, hr⟩, rfl⟩
  · exact .inl ⟨t, ht, rfl⟩
  · exact .inr (.inl ⟨t, ht, rfl⟩)
  · exact .inr (.inr ⟨l, e, r, hl, he, hr, rfl⟩)

theorem words_term : Production.term.extended.words =
    [[.rule .factor], [.rule .factor, .terminal .star, .rule .term],
      [.rule .factor, .terminal .slash, .rule .term]] := rfl

theorem words_expression : Production.expression.extended.words =
    [[.rule .term], [.rule .term, .terminal .plus, .rule .expression],
      [.rule .term, .terminal .minus, .rule .expression]] := rfl

/-- A product or a sum is one operand, or an operand, one of two operators and what follows. -/
theorem operands_iff {whole part : Production} {a b : TokenType}
    (words : whole.extended.words = [[.rule part], [.rule part, .terminal a, .rule whole],
      [.rule part, .terminal b, .rule whole]]) :
    children.map symbol ∈ whole.extended.words ↔
      (∃ d, d.symbol = .rule part ∧ children = [d]) ∨
        ∃ d op e, d.symbol = .rule part ∧ (op.type = a ∨ op.type = b) ∧ e.symbol = .rule whole ∧
          children = [d, leaf op, e] := by
  rw [words]
  constructor
  · intro allowed
    simp only [List.mem_cons, List.not_mem_nil, or_false, List.map_eq_cons_iff,
      List.map_eq_nil_iff, symbol_eq_terminal] at allowed
    rcases allowed with ⟨d, _, rfl, hd, rfl⟩ |
      ⟨d, _, rfl, hd, _, _, rfl, ⟨op, rfl, ho⟩, e, _, rfl, he, rfl⟩ |
      ⟨d, _, rfl, hd, _, _, rfl, ⟨op, rfl, ho⟩, e, _, rfl, he, rfl⟩
    · exact .inl ⟨d, hd, rfl⟩
    · exact .inr ⟨d, op, e, hd, .inl ho, he, rfl⟩
    · exact .inr ⟨d, op, e, hd, .inr ho, he, rfl⟩
  · rintro (⟨d, hd, rfl⟩ | ⟨d, op, e, hd, ho, he, rfl⟩)
    · simp [hd]
    · have spelled : [d, leaf op, e].map symbol =
          [.rule part, .terminal op.type, .rule whole] := by
        rw [List.map_cons, hd, List.map_cons, List.map_singleton, he]
        rfl
      rw [spelled]
      rcases ho with rfl | rfl <;> simp

theorem assignmentStatement_children
    (allowed : children.map symbol ∈ Production.assignmentStatement.extended.words) :
    ∃ x op value, x.type = .identifier ∧ op.type = .colonEqual ∧
      (value.symbol = .rule .expression ∨ value.symbol = .terminal .stringLiteral) ∧
      children = [leaf x, leaf op, value] := by
  change _ ∈ ([[.terminal .identifier, .terminal .colonEqual, .rule .expression],
    [.terminal .identifier, .terminal .colonEqual, .terminal .stringLiteral]] :
    List (List Symbol)) at allowed
  simp only [List.mem_cons, List.not_mem_nil, or_false, List.map_eq_cons_iff,
    List.map_eq_nil_iff] at allowed
  rcases allowed with ⟨_, _, rfl, sx, _, _, rfl, so, value, _, rfl, hv, rfl⟩ |
    ⟨_, _, rfl, sx, _, _, rfl, so, value, _, rfl, hv, rfl⟩
  all_goals
    obtain ⟨x, rfl, hx⟩ := symbol_eq_terminal.mp sx
    obtain ⟨op, rfl, ho⟩ := symbol_eq_terminal.mp so
  · exact ⟨x, op, value, hx, ho, .inl hv, rfl⟩
  · exact ⟨x, op, value, hx, ho, .inr hv, rfl⟩

end Tree

/-- The tokens have a derivation from the first production. -/
def IsProgram (w : List Token) : Prop := ∃ d : Tree, d.Derives .statementPart w

/-- No program holds the end of the file. -/
theorem IsProgram.type_ne_endOfFile {w : List Token} (h : IsProgram w) :
    ∀ t ∈ w, t.type ≠ .endOfFile := by
  obtain ⟨d, hd, hs, rfl⟩ := h
  exact hd.type_ne_endOfFile (by simp [hs])

end BlockLang
