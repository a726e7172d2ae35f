import BlockLang.Proofs.Grammar.Tree
import Mathlib.Computability.Language

/-!
# The words of the productions

The words of a production are the token types of its derivations. They solve the equations of the
grammar: with sequences as products, choices as sums and options as sums with the empty word, the
words of a production are those of its right-hand side. `Production.followedBy K` is such a
right-hand side multiplied out, with the words `K` after it.

## Main definitions

* `Production.language`: the words of a production
* `Ebnf.language`: the words of a right-hand side
* `Production.followedBy K`: the words of a production with those of `K` after them
* `Production.begins`, `Production.goesOn`: the token types that a word of a production begins with,
  and those with which a longer word would go on
* `Language.Possible`, `Language.Begins`: there is a word, and one that begins with a token type

## Main results

* `isProgram_iff`: whether tokens are a program is told by their types
* `language_eq`: the words of a production are those of its right-hand side
* `language_mul`: the words of a production and of `K`, multiplied out
* `Tree.Derived.exists_cons`: what the tokens of a derivation begin with
* `possible_language`: every production has a word
-/

namespace BlockLang

/-- What is said of every token type can be checked. -/
instance {P : TokenType → Prop} [DecidablePred P] : Decidable (∀ t, P t) :=
  decidable_of_iff (∀ t ∈ TokenType.all, P t) ⟨fun h t => h t t.mem_all, fun h t _ => h t⟩

/-- The types of some tokens. -/
abbrev types (w : List Token) : List TokenType := w.map Token.type

/-- The words that derivations of a symbol have. -/
def Symbol.language (s : Symbol) : Language TokenType :=
  {w | ∃ d : Tree, d.Derived ∧ d.symbol = s ∧ types d.yield = w}

/-- The words of a production. -/
def Production.language (p : Production) : Language TokenType := (Symbol.rule p).language

theorem mem_symbol_language {s : Symbol} {w : List TokenType} :
    w ∈ s.language ↔ ∃ d : Tree, d.Derived ∧ d.symbol = s ∧ types d.yield = w := Iff.rfl

theorem language_terminal (t : TokenType) : (Symbol.terminal t).language = {[t]} := by
  ext w
  change _ ↔ w = [t]
  rw [mem_symbol_language]
  constructor
  · rintro ⟨d, -, hs, rfl⟩
    obtain ⟨token, rfl, rfl⟩ := Tree.symbol_eq_terminal.mp hs
    rfl
  · rintro rfl
    exact ⟨.leaf ⟨t, "", Position.start⟩, .leaf _, rfl, rfl⟩

/-- A derivation of other tokens with the same types. -/
theorem Tree.Derived.relabel {d : Tree} (h : d.Derived) {w : List Token}
    (hw : types w = types d.yield) : ∃ e : Tree, e.Derived ∧ e.symbol = d.symbol ∧ e.yield = w := by
  induction h generalizing w with
  | leaf t =>
    obtain ⟨u, rfl, hu⟩ : ∃ u, w = [u] ∧ u.type = t.type := by
      simpa [types, Tree.yield, List.map_eq_singleton_iff] using hw
    exact ⟨.leaf u, .leaf u, by simp [Tree.symbol, hu], rfl⟩
  | node p children allowed _ ih =>
    -- The parts share the tokens among themselves, so their relabelling is by induction on them.
    have side_by_side : ∀ (cs : List Tree) (w : List Token), (∀ c ∈ cs, c ∈ children) →
        types w = types (Tree.yields cs) →
        ∃ es : List Tree, es.map Tree.symbol = cs.map Tree.symbol ∧ (∀ e ∈ es, e.Derived) ∧
          Tree.yields es = w := by
      intro cs
      induction cs with
      | nil =>
        intro w _ hw
        exact ⟨[], rfl, by simp, (List.map_eq_nil_iff.mp hw).symm⟩
      | cons c cs ihs =>
        intro w hcs hw
        rw [Tree.yields, types, types, List.map_append, List.map_eq_append_iff] at hw
        obtain ⟨u, v, rfl, hu, hv⟩ := hw
        obtain ⟨e, he, hs, rfl⟩ := ih c (hcs c List.mem_cons_self) hu
        obtain ⟨es, hss, hes, rfl⟩ := ihs v (fun c hc => hcs c (List.mem_cons_of_mem _ hc)) hv
        exact ⟨e :: es, by simp [hs, hss], by simpa using ⟨he, hes⟩, rfl⟩
    obtain ⟨es, hs, hes, rfl⟩ := side_by_side children w (fun _ => id) hw
    exact ⟨.node p es, .node p es (hs ▸ allowed) hes, rfl, rfl⟩

/-- Whether tokens are a program is told by their types. -/
theorem isProgram_iff {w : List Token} :
    IsProgram w ↔ types w ∈ Production.statementPart.language := by
  constructor
  · rintro ⟨d, hd, hs, rfl⟩
    exact ⟨d, hd, hs, rfl⟩
  · rintro ⟨d, hd, hs, hw⟩
    obtain ⟨e, he, hse, rfl⟩ := hd.relabel hw.symm
    exact ⟨e, he, hse.trans hs, rfl⟩

/-! ## Right-hand sides -/

namespace Ebnf

/-- The words of a right-hand side. -/
def language : Ebnf → Language TokenType
  | symbol s => s.language
  | sequence a b => a.language * b.language
  | choice a b => a.language + b.language
  | option a => 1 + a.language

/-- A word of a right-hand side is a product of words of the symbols in one of its sequences. -/
theorem mem_language_iff (e : Ebnf) {w : List TokenType} :
    w ∈ e.language ↔ ∃ ss ∈ e.words, w ∈ (ss.map Symbol.language).prod := by
  induction e generalizing w with
  | symbol s => simp [language, words]
  | sequence a b iha ihb =>
    simp only [language, words, Language.mem_mul, iha, ihb, List.mem_flatMap, List.mem_map]
    constructor
    · rintro ⟨x, ⟨ss, hss, hx⟩, y, ⟨ts, hts, hy⟩, rfl⟩
      refine ⟨ss ++ ts, ⟨ss, hss, ts, hts, rfl⟩, ?_⟩
      rw [List.map_append, List.prod_append]
      exact Language.append_mem_mul hx hy
    · rintro ⟨_, ⟨ss, hss, ts, hts, rfl⟩, h⟩
      rw [List.map_append, List.prod_append, Language.mem_mul] at h
      obtain ⟨x, hx, y, hy, rfl⟩ := h
      exact ⟨x, ⟨ss, hss, hx⟩, y, ⟨ts, hts, hy⟩, rfl⟩
  | choice a b iha ihb =>
    simp only [language, words, Language.mem_add, iha, ihb, List.mem_append]
    simp only [or_and_right, exists_or]
  | option a iha => simp [language, words, Language.mem_add, iha]

end Ebnf

/-- Derivations of the symbols of a sequence, side by side. -/
theorem mem_prod_language_iff {ss : List Symbol} {w : List TokenType} :
    w ∈ (ss.map Symbol.language).prod ↔
      ∃ children : List Tree, children.map Tree.symbol = ss ∧ (∀ c ∈ children, c.Derived) ∧
        types (Tree.yields children) = w := by
  induction ss generalizing w with
  | nil => simp [eq_comm]
  | cons s ss ih =>
    simp only [List.map_cons, List.prod_cons, Language.mem_mul, ih, mem_symbol_language]
    constructor
    · rintro ⟨_, ⟨d, hd, rfl, rfl⟩, _, ⟨children, rfl, hc, rfl⟩, rfl⟩
      exact ⟨d :: children, rfl, by simpa using ⟨hd, hc⟩, by simp [Tree.yields]⟩
    · rintro ⟨children, hs, hc, rfl⟩
      obtain ⟨d, children, rfl, rfl, rfl⟩ := List.map_eq_cons_iff.mp hs
      simp only [List.mem_cons, forall_eq_or_imp] at hc
      exact ⟨_, ⟨d, hc.1, rfl, rfl⟩, _, ⟨children, rfl, hc.2, rfl⟩, by simp [Tree.yields]⟩

/-- The words of a production are those of its right-hand side. -/
theorem language_eq (p : Production) : p.language = p.extended.language := by
  ext w
  rw [Ebnf.mem_language_iff]
  constructor
  · rintro ⟨d, hd, hs, rfl⟩
    obtain ⟨children, rfl⟩ := Tree.symbol_eq_rule.mp hs
    obtain ⟨allowed, parts⟩ := Tree.derived_node_iff.mp hd
    exact ⟨_, allowed, mem_prod_language_iff.mpr ⟨children, rfl, parts, rfl⟩⟩
  · rintro ⟨ss, allowed, h⟩
    obtain ⟨children, rfl, parts, rfl⟩ := mem_prod_language_iff.mp h
    exact ⟨.node p children, .node p children allowed parts, rfl, rfl⟩

/-! ## What comes next -/

/-- The words of a production with those of `K` after them, multiplied out. -/
def Production.followedBy (K : Language TokenType) : Production → Language TokenType
  | .statementPart => {[.beginKeyword]} * (statementList.language * ({[.endKeyword]} * K))
  | .statementList =>
    statement.language * (K + {[.semicolon]} * (K + statementList.language * K))
  | .statement =>
    assignmentStatement.language * K + (ifStatement.language * K + (whileStatement.language * K +
      (procedureStatement.language * K + (untilStatement.language * K +
        forStatement.language * K))))
  | .assignmentStatement =>
    {[.identifier]} * ({[.colonEqual]} * (expression.language * K + {[.stringLiteral]} * K))
  | .ifStatement =>
    {[.ifKeyword]} * (condition.language * ({[.thenKeyword]} * (statementList.language *
      ({[.endKeyword]} * ({[.ifKeyword]} * K) + {[.elseKeyword]} * (statementList.language *
        ({[.endKeyword]} * ({[.ifKeyword]} * K)))))))
  | .whileStatement =>
    {[.whileKeyword]} * (condition.language * ({[.loopKeyword]} * (statementList.language *
      ({[.endKeyword]} * ({[.loopKeyword]} * K)))))
  | .untilStatement =>
    {[.doKeyword]} * (statementList.language * ({[.untilKeyword]} * (condition.language * K)))
  | .forStatement =>
    {[.forKeyword]} * ({[.leftParen]} * (assignmentStatement.language * ({[.semicolon]} *
      (condition.language * ({[.semicolon]} * (assignmentStatement.language * ({[.rightParen]} *
        ({[.doKeyword]} * (statementList.language * ({[.endKeyword]} *
          ({[.loopKeyword]} * K)))))))))))
  | .procedureStatement =>
    {[.callKeyword]} * ({[.identifier]} * ({[.leftParen]} * (argumentList.language *
      ({[.rightParen]} * K))))
  | .argumentList => {[.identifier]} * (K + {[.comma]} * (argumentList.language * K))
  | .condition =>
    {[.identifier]} * (conditionalOperator.language * ({[.identifier]} * K +
      ({[.numberLiteral]} * K + {[.stringLiteral]} * K)))
  | .conditionalOperator =>
    {[.less]} * K + ({[.lessEqual]} * K + ({[.equal]} * K + ({[.slashEqual]} * K +
      ({[.greater]} * K + {[.greaterEqual]} * K))))
  | .expression =>
    term.language * (K + ({[.plus]} * (expression.language * K) +
      {[.minus]} * (expression.language * K)))
  | .term =>
    factor.language * (K + ({[.star]} * (term.language * K) + {[.slash]} * (term.language * K)))
  | .factor =>
    {[.identifier]} * K + ({[.numberLiteral]} * K + {[.leftParen]} * (expression.language *
      ({[.rightParen]} * K)))

theorem ebnf_language_token (t : TokenType) : (Ebnf.token t).language = {[t]} :=
  language_terminal t

theorem ebnf_language_part (p : Production) : (Ebnf.part p).language = p.language := rfl

theorem ebnf_language_append (a b : Ebnf) : (a ++ b).language = a.language * b.language := rfl

theorem ebnf_language_or (a b : Ebnf) : (a ||| b).language = a.language + b.language := rfl

theorem ebnf_language_option (a : Ebnf) : (Ebnf.option a).language = 1 + a.language := rfl

/-- The words of a production and of `K`, multiplied out. -/
theorem language_mul (p : Production) (K : Language TokenType) :
    p.language * K = p.followedBy K := by
  rw [language_eq]
  -- Sums distribute over products, and what is left over is `K` itself.
  cases p <;>
    simp only [Production.extended, Production.reference, Production.followedBy,
      ebnf_language_token, ebnf_language_part, ebnf_language_append, ebnf_language_or,
      ebnf_language_option, mul_add, add_mul, mul_one, mul_assoc, add_assoc]
  -- A statement list is left: its two ways to go on after a semicolon stand in another order.
  exact congrArg _ (add_comm _ _)

/-- The token types that a word of a production begins with. -/
def Production.begins : Production → TokenType → Bool
  | .statementPart => (· == .beginKeyword)
  | .statementList | .statement => (·.startsStatement)
  | .assignmentStatement | .argumentList | .condition => (· == .identifier)
  | .ifStatement => (· == .ifKeyword)
  | .whileStatement => (· == .whileKeyword)
  | .untilStatement => (· == .doKeyword)
  | .forStatement => (· == .forKeyword)
  | .procedureStatement => (· == .callKeyword)
  | .conditionalOperator => (·.isRelational)
  | .expression | .term | .factor => (·.startsOperand)

/-- The token types with which a longer word of a production would go on. -/
def Production.goesOn : Production → TokenType → Bool
  | .statementList => fun t => t == .semicolon || t.startsStatement || t.isArithmetic
  | .statement | .assignmentStatement | .expression => (·.isArithmetic)
  | .term => fun t => t == .star || t == .slash
  | .argumentList => (· == .comma)
  | _ => fun _ => false

/-- A token type, or what a production begins with. -/
def Symbol.begins : Symbol → TokenType → Bool
  | terminal u => (· == u)
  | rule p => p.begins

/-- What a sequence begins with, its production begins with. -/
theorem begins_of_mem_words {p : Production} {w : List Symbol} (h : w ∈ p.extended.words) :
    ∃ s rest, w = s :: rest ∧ ∀ t, s.begins t → p.begins t := by
  have all : ∀ w ∈ p.extended.words,
      (w.head?.any fun s => TokenType.all.all fun t => !s.begins t || p.begins t) = true := by
    cases p <;> decide
  cases w with
  | nil => simpa using all [] h
  | cons s rest =>
    refine ⟨s, rest, rfl, fun t ht => ?_⟩
    have := List.all_eq_true.mp (all _ h) t t.mem_all
    simpa [ht] using this

/-- What the tokens of a derivation begin with. -/
theorem Tree.Derived.exists_cons {d : Tree} (h : d.Derived) :
    ∃ t v, d.yield = t :: v ∧ d.symbol.begins t.type := by
  induction h with
  | leaf t => exact ⟨t, [], rfl, by simp [Tree.symbol, Symbol.begins]⟩
  | node p children allowed _ ih =>
    obtain ⟨s, rest, hw, hs⟩ := begins_of_mem_words allowed
    obtain ⟨c, children, rfl, rfl, -⟩ := List.map_eq_cons_iff.mp hw
    obtain ⟨t, v, hy, ht⟩ := ih c List.mem_cons_self
    exact ⟨t, v ++ Tree.yields children, by simp [Tree.yield, Tree.yields, hy], hs _ ht⟩

/-- The token before the parts of a production is one that the production begins with. -/
theorem Passes.begins {p : Production} {children : List Tree} {here next : Place}
    (h : Passes here (Tree.yields children) next)
    (allowed : children.map Tree.symbol ∈ p.extended.words) (parts : ∀ c ∈ children, c.Derived) :
    p.begins here.1.type := by
  obtain ⟨t, v, hy, ht⟩ := (Tree.Derived.node p children allowed parts).exists_cons
  rw [Tree.yield] at hy
  rw [hy] at h
  exact h.1 ▸ ht

/-- What a word of a production begins with. -/
theorem exists_cons_of_mem_language {p : Production} {w : List TokenType} (h : w ∈ p.language) :
    ∃ t v, w = t :: v ∧ p.begins t := by
  obtain ⟨d, hd, hs, rfl⟩ := h
  obtain ⟨t, v, hy, ht⟩ := hd.exists_cons
  exact ⟨t.type, types v, by simp [hy], by simpa only [hs, Symbol.begins] using ht⟩

end BlockLang

/-! ## Words that begin with a token type -/

namespace Language

open BlockLang

/-- The language has a word. -/
def Possible (K : Language TokenType) : Prop := ∃ v, v ∈ K

/-- The language has a word that begins with a token type. -/
def Begins (K : Language TokenType) (t : TokenType) : Prop := ∃ v, t :: v ∈ K

variable {K L : Language TokenType} {t u : TokenType} {p : Production}

@[simp] theorem possible_mul : (K * L).Possible ↔ K.Possible ∧ L.Possible := by
  simp only [Possible, mem_mul]
  constructor
  · rintro ⟨_, a, ha, b, hb, rfl⟩
    exact ⟨⟨a, ha⟩, ⟨b, hb⟩⟩
  · rintro ⟨⟨a, ha⟩, ⟨b, hb⟩⟩
    exact ⟨_, a, ha, b, hb, rfl⟩

@[simp] theorem possible_add : (K + L).Possible ↔ K.Possible ∨ L.Possible := by
  simp only [Possible, mem_add, exists_or]

@[simp] theorem possible_one : (1 : Language TokenType).Possible := ⟨[], rfl⟩

@[simp] theorem possible_singleton (w : List TokenType) :
    ({w} : Language TokenType).Possible := ⟨w, rfl⟩

theorem cons_mem_singleton_mul {v : List TokenType} :
    t :: v ∈ ({[u]} : Language TokenType) * K ↔ t = u ∧ v ∈ K := by
  rw [mem_mul]
  constructor
  · rintro ⟨a, rfl, b, hb, h⟩
    obtain ⟨rfl, rfl⟩ := List.cons.inj h
    exact ⟨rfl, hb⟩
  · rintro ⟨rfl, hv⟩
    exact ⟨[t], rfl, v, hv, rfl⟩

@[simp] theorem begins_singleton_mul :
    (({[u]} : Language TokenType) * K).Begins t ↔ t = u ∧ K.Possible := by
  simp only [Begins, cons_mem_singleton_mul, exists_and_left, Possible]

@[simp] theorem begins_add : (K + L).Begins t ↔ K.Begins t ∨ L.Begins t := by
  simp only [Begins, mem_add, exists_or]

/-- What a production begins with, it begins with whatever comes after it. -/
@[simp] theorem not_begins_language_mul (h : ¬p.begins t) : ¬(p.language * K).Begins t := by
  rintro ⟨v, a, ha, b, -, hv⟩
  obtain ⟨u, w, rfl, hu⟩ := exists_cons_of_mem_language ha
  obtain ⟨rfl, -⟩ := List.cons.inj hv
  exact h hu

end Language

namespace BlockLang

/-- Every production has a word. -/
@[simp] theorem possible_language (p : Production) : p.language.Possible := by
  have eq (p : Production) : p.language = p.followedBy 1 := by rw [← language_mul, mul_one]
  -- Each production after those that its shortest word is made of.
  have factor : Production.factor.language.Possible := by
    rw [eq]
    simp [Production.followedBy]
  have term : Production.term.language.Possible := by
    rw [eq]
    simp [Production.followedBy, factor]
  have expression : Production.expression.language.Possible := by
    rw [eq]
    simp [Production.followedBy, term]
  have operator : Production.conditionalOperator.language.Possible := by
    rw [eq]
    simp [Production.followedBy]
  have condition : Production.condition.language.Possible := by
    rw [eq]
    simp [Production.followedBy, operator]
  have arguments : Production.argumentList.language.Possible := by
    rw [eq]
    simp [Production.followedBy]
  have assignment : Production.assignmentStatement.language.Possible := by
    rw [eq]
    simp [Production.followedBy]
  have statement : Production.statement.language.Possible := by
    rw [eq]
    simp [Production.followedBy, assignment]
  have statements : Production.statementList.language.Possible := by
    rw [eq]
    simp [Production.followedBy, statement]
  cases p <;> first
    | assumption
    | (rw [eq]; simp [Production.followedBy, condition, arguments, assignment, statements])

end BlockLang
