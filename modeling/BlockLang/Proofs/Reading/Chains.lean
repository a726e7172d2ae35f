import BlockLang.Proofs.Grammar.Spelling
import BlockLang.Proofs.Scoping.Moments

/-!
# The chain of a sum

A factor or a term leaves the chain of the sum around it as it found it, whatever stands in it and
however it ends: a sum in parentheses has a chain of its own. So when a sum was read, its chain
holds the types of its own last two terms, and nothing of the sums inside them.

## Main definitions

* `Tree.valueType γ d`: the type of the value that a tree stands for, as the scopes tell it
* `Tree.summands`: the terms of a sum
* `OperandChain.extend`, `OperandChain.Keeps`: the chain after more terms, and the chain that a sum
  ends with
* `AnalyserState.Follows s ds t`: the run from one state to the other has followed some trees
* `Analyser.ReadsTree p m`: a move that answers has read a tree of a production

## Main results

* `keepsChain_factor`, `keepsChain_term`: the chain around a factor or a term stays as it was
* `readsTrees_analyser`: what was read is a tree, and the answer is its type
* `chain_of_sum`: the chain behind a sum holds the types of its last two terms
-/

namespace BlockLang

open Analyser

variable {α β : Type} {m body : Analyser α} {f : α → Analyser β} {r s t u : AnalyserState}
  {call : Callee} {limit : Nat} {γ : Scopes} {p : Production} {σ τ : ValueType}

/-! ## Types of trees -/

namespace Tree

/-- The type of the value that a tree stands for. A product is a number, parentheses say nothing,
and a sum has the type of its first term. -/
def valueType (γ : Scopes) : Tree → ValueType
  | leaf t => operandType γ t
  | node .term [_, _, _] => .number
  | node .factor [_, e, _] => e.valueType γ
  | node _ (d :: _) => d.valueType γ
  | node _ [] => .unknown

/-- The terms of a sum in their order. -/
def summands : Tree → List Tree
  | node .expression [d] => [d]
  | node .expression [d, _, e] => d :: e.summands
  | _ => []

/-- What is no sum has no terms. -/
theorem summands_eq_nil {d : Tree} (h : d.symbol ≠ .rule .expression) : d.summands = [] := by
  cases d with
  | leaf t => rfl
  | node p children => cases p <;> first | rfl | exact absurd rfl h

/-- A sum has a term at least. -/
theorem Derived.summands_ne_nil {d : Tree} (h : d.Derived) (hs : d.symbol = .rule .expression) :
    d.summands ≠ [] := by
  obtain ⟨children, rfl⟩ := symbol_eq_rule.mp hs
  rcases (operands_iff words_expression).mp (derived_node_iff.mp h).1 with
    ⟨d, -, rfl⟩ | ⟨d, op, e, -, -, -, rfl⟩
  · exact List.cons_ne_nil _ _
  · exact List.cons_ne_nil _ _

theorem allowed_parenthesized {l r : Token} {e : Tree} (hl : l.type = .leftParen)
    (he : e.symbol = .rule .expression) (hr : r.type = .rightParen) :
    [leaf l, e, leaf r].map symbol ∈ Production.factor.extended.words := by
  have spelled : [leaf l, e, leaf r].map symbol =
      [.terminal .leftParen, .rule .expression, .terminal .rightParen] := by
    simp [symbol, ← hl, ← hr, ← he]
  rw [spelled]
  decide

end Tree

/-! ## Chains -/

namespace OperandChain

/-- The chain after some more terms. -/
def extend (chain : OperandChain) (types : List ValueType) : OperandChain :=
  types.foldl (fun chain t => chain.enter.record t) chain

@[simp] theorem extend_nil (chain : OperandChain) : chain.extend [] = chain := rfl

@[simp] theorem extend_cons (chain : OperandChain) (t : ValueType) (types : List ValueType) :
    chain.extend (t :: types) = (chain.enter.record t).extend types := rfl

@[simp] theorem extend_append (chain : OperandChain) (types more : List ValueType) :
    chain.extend (types ++ more) = (chain.extend types).extend more := by
  simp [extend]

/-- The chain that a sum ends with whose terms have these types. -/
inductive Keeps : List ValueType → OperandChain → Prop
  | first (τ : ValueType) : Keeps [τ] ⟨.first, τ, .unknown⟩
  | second (σ τ : ValueType) : Keeps [σ, τ] ⟨.second, σ, τ⟩
  | nested (front : List ValueType) (σ τ : ValueType) (more : front ≠ []) :
      Keeps (front ++ [σ, τ]) ⟨.nested, σ, τ⟩

/-- One more term moves the last type to the left. -/
theorem Keeps.concat {types : List ValueType} {chain : OperandChain} (h : Keeps types chain)
    (τ : ValueType) : Keeps (types ++ [τ]) (chain.enter.record τ) := by
  cases h with
  | first σ => exact .second σ τ
  | second ρ σ => exact .nested [ρ] σ τ (List.cons_ne_nil _ _)
  | nested front ρ σ more =>
    rw [List.append_assoc]
    have longer := Keeps.nested (front ++ [ρ]) σ τ (by simp)
    rwa [List.append_assoc] at longer

/-- A fresh chain that some terms extend keeps the types of the last two. -/
theorem keeps_extend {types : List ValueType} (h : types ≠ []) :
    Keeps types (fresh.extend types) := by
  -- Induction from the right, along the order in which the terms arrive.
  induction types using List.reverseRecOn with
  | nil => exact absurd rfl h
  | append_singleton types τ ih =>
    rw [extend_append, extend_cons, extend_nil]
    by_cases first : types = []
    · subst first
      exact .first τ
    · exact (ih first).concat τ

end OperandChain

/-! ## What leaves the chain as it is -/

namespace Analyser

/-- The move leaves the chain as it was, whether it answers or stops. -/
def KeepsChain (m : Analyser α) : Prop :=
  ∀ s, Ensures m (fun _ t => t.chain = s.chain) (fun _ t => t.chain = s.chain) s

theorem KeepsChain.bind (hm : KeepsChain m) (hf : ∀ a, KeepsChain (f a)) :
    KeepsChain (m >>= f) := fun s =>
  ensures_bind.mpr ((hm s).answer fun a t ht =>
    (hf a t).imp (fun _ _ same => same.trans ht) fun _ _ same => same.trans ht)

theorem keepsChain_pure (a : α) : KeepsChain (pure a) := fun _ => rfl

theorem keepsChain_lookahead : KeepsChain lookahead := fun _ => rfl

theorem keepsChain_lookingAt (sort : TokenType → Bool) : KeepsChain (lookingAt sort) := fun _ => rfl

theorem keepsChain_reject (cause : Token → Cause) : KeepsChain (reject (α := α) cause) :=
  fun _ => rfl

theorem keepsChain_require (sort : TokenType → Bool) (cause : Token → Cause) :
    KeepsChain (require sort cause) := by
  refine fun s => ensures_require.mpr ?_
  split <;> rfl

theorem keepsChain_accept (wanted : TokenType) : KeepsChain (accept wanted) := fun _ =>
  ensures_accept (fun _ _ _ _ => rfl) (fun _ _ _ _ => rfl) fun _ => rfl

theorem keepsChain_expect (wanted : TokenType) : KeepsChain (expect wanted) :=
  (keepsChain_accept wanted).bind fun _ => keepsChain_pure _

theorem keepsChain_requireDeclared : KeepsChain requireDeclared := by
  refine fun s => ensures_requireDeclared.mpr ?_
  split
  · split <;> rfl
  · rfl

theorem keepsChain_checkFactor (operator : TokenType) (t : ValueType) (side : String)
    (token : Token) : KeepsChain (checkFactor operator t side token) := by
  refine fun s => ensures_checkFactor.mpr ?_
  split <;> rfl

/-- Whatever is done with a fresh chain, the chain around it comes back. -/
theorem keepsChain_inFreshChain (body : Analyser α) : KeepsChain (inFreshChain body) := by
  refine fun s => ensures_inFreshChain.mpr ?_
  unfold Ensures
  split <;> rfl

theorem KeepsChain.within (h : KeepsChain body) (p : Production) : KeepsChain (within p body) :=
  fun s => ensures_within.mpr ((h (s.emit (.begin p.name))).imp (fun _ _ => id) fun _ _ => id)

/-- A factor leaves the chain as it was. -/
theorem keepsChain_factor (limit : Nat) : KeepsChain (analyser limit .factor) := by
  cases limit with
  | zero => exact fun _ => rfl
  | succ limit =>
    refine KeepsChain.within (keepsChain_lookahead.bind fun token => ?_) .factor
    split
    · exact keepsChain_requireDeclared.bind fun _ => (keepsChain_expect _).bind fun _ =>
        keepsChain_pure _
    · exact (keepsChain_expect _).bind fun _ => keepsChain_pure _
    · exact (keepsChain_expect _).bind fun _ => (keepsChain_inFreshChain _).bind fun _ =>
        (keepsChain_expect _).bind fun _ => keepsChain_pure _
    · exact keepsChain_reject _

/-- A term leaves the chain as it was. -/
theorem keepsChain_term (limit : Nat) : KeepsChain (analyser limit .term) := by
  induction limit with
  | zero => exact fun _ => rfl
  | succ limit ih =>
    refine KeepsChain.within ((keepsChain_require _ _).bind fun _ => ?_) .term
    refine (keepsChain_factor limit).bind fun left => (keepsChain_lookingAt _).bind fun more => ?_
    split
    · refine keepsChain_lookahead.bind fun _ => (keepsChain_accept _).bind fun operator => ?_
      have checks (t : ValueType) (side : String) (token : Token) :=
        keepsChain_checkFactor operator.type t side token
      refine keepsChain_lookahead.bind fun operand => (checks _ _ _).bind fun _ => ?_
      refine KeepsChain.bind (fun _ => rfl) fun _ => (checks _ _ _).bind fun _ => ?_
      exact ih.bind fun right => (checks _ _ _).bind fun _ => keepsChain_pure _
    · exact keepsChain_pure _

end Analyser

/-! ## What was read -/

/-- From the first state to the second, the run has followed some trees: it has told of the walks
around them, and no scope has changed. -/
structure AnalyserState.Follows (s : AnalyserState) (children : List Tree) (t : AnalyserState) :
    Prop where
  derived : ∀ c ∈ children, c.Derived
  scopes_eq : t.scopes = s.scopes
  told : t.trace = s.trace ++ Tree.traces children

namespace AnalyserState.Follows

variable {children more : List Tree}

theorem nil (hs : t.scopes = s.scopes) (ht : t.trace = s.trace) : s.Follows [] t :=
  ⟨List.forall_mem_nil _, hs, by simpa [Tree.traces] using ht⟩

theorem leaf (s : AnalyserState) (next : Token) (input : TokenStream) :
    s.Follows [.leaf s.lookahead] (s.advance next input) :=
  ⟨List.forall_mem_singleton.mpr (.leaf _), rfl, by simp [Tree.traces, Tree.trace]⟩

theorem append (h : r.Follows children s) (h' : s.Follows more t) :
    r.Follows (children ++ more) t := by
  refine ⟨fun c hc => (List.mem_append.mp hc).elim (h.derived c) (h'.derived c),
    h'.scopes_eq.trans h.scopes_eq, ?_⟩
  rw [h'.told, h.told, Tree.traces_append, List.append_assoc]

theorem trace_eq {d : Tree} (h : s.Follows [d] t) : t.trace = s.trace ++ d.trace := by
  simpa [Tree.traces] using h.told

/-- The tokens of the tree were passed. -/
theorem passes {d : Tree} (h : s.Follows [d] t) (reaches : Reaches s t) :
    Passes s.place d.yield t.place := by
  have derived : d.Derived := h.derived d List.mem_cons_self
  refine reaches.passes ?_
  rw [AnalyserState.accepted, h.trace_eq, accepted_append, derived.accepted_trace]
  rfl

/-- A production follows the tree whose children it has followed. -/
theorem node (h : (s.emit (.begin p.name)).Follows children t)
    (allowed : children.map Tree.symbol ∈ p.extended.words) :
    s.Follows [.node p children] (t.emit (.finish p.name)) :=
  ⟨List.forall_mem_singleton.mpr (.node p children allowed h.derived), h.scopes_eq, by
    simp [Tree.traces, Tree.trace, h.told]⟩

end AnalyserState.Follows

namespace Analyser

/-- A move that answers has followed a tree of the production and answers its type. The chain was
extended by the terms of the tree. -/
def ReadsTree (p : Production) (m : Analyser ValueType) : Prop :=
  ∀ s, Ensures m (fun τ t => ∃ d : Tree, d.symbol = .rule p ∧ s.Follows [d] t ∧
    τ = d.valueType s.scopes ∧ t.chain = s.chain.extend (d.summands.map (Tree.valueType s.scopes)))
    (fun _ _ => True) s

/-- The same inside the production: its children were followed. -/
def ReadsChildren (p : Production) (m : Analyser ValueType) : Prop :=
  ∀ s, Ensures m (fun τ t => ∃ children : List Tree, children.map Tree.symbol ∈ p.extended.words ∧
    s.Follows children t ∧ τ = (Tree.node p children).valueType s.scopes ∧
    t.chain = s.chain.extend ((Tree.node p children).summands.map (Tree.valueType s.scopes)))
    (fun _ _ => True) s

theorem ReadsChildren.within {m : Analyser ValueType} (h : ReadsChildren p m) :
    ReadsTree p (within p m) := by
  refine fun s => ensures_within.mpr ((h (s.emit (.begin p.name))).answer fun τ t ht => ?_)
  obtain ⟨children, allowed, follows, typed, chain⟩ := ht
  exact ⟨.node p children, rfl, follows.node allowed, typed, chain⟩

/-- A token of the wanted type is followed. -/
theorem ensures_expect_follows {wanted : TokenType} {Q : Unit → AnalyserState → Prop}
    (h : ∀ t, s.lookahead.type = wanted → s.Follows [.leaf s.lookahead] t → t.chain = s.chain →
      Q () t) : Ensures (expect wanted) Q (fun _ _ => True) s := by
  refine ensures_expect.mpr (ensures_accept (fun next input hw _ => ?_) (fun _ _ _ _ => trivial)
    fun _ => trivial)
  exact h _ hw (.leaf s next input) rfl

/-- What factors, terms and sums are analysed by reads trees. -/
structure ReadsTrees (call : Callee) : Prop where
  factor : ReadsTree .factor (call .factor)
  term : ReadsTree .term (call .term)
  expression : ∀ join, ReadsTree .expression (call (.expression join))

/-- A factor reads a name, a number, or a sum in parentheses. -/
theorem ReadsTrees.rule_factor (h : ReadsTrees call) :
    ReadsChildren .factor (rule call .factor) := by
  refine fun s => ensures_bind.mpr (ensures_lookahead.mpr ?_)
  split
  · next isName =>
    refine ensures_bind.mpr (ensures_requireDeclared.mpr ?_)
    rw [if_pos isName]
    split
    · next x found =>
      refine ensures_bind.mpr (ensures_expect_follows fun t _ follows chain => ?_)
      refine ⟨[.leaf s.lookahead], ?_, follows, (operandType_identifier isName found).symm, chain⟩
      rw [List.map_singleton, Tree.symbol, isName]
      decide
    · trivial
  · next isNumber =>
    refine ensures_bind.mpr (ensures_expect_follows fun t _ follows chain => ?_)
    refine ⟨[.leaf s.lookahead], ?_, follows, ?_, chain⟩
    · rw [List.map_singleton, Tree.symbol, isNumber]
      decide
    · change ValueType.number = operandType s.scopes s.lookahead
      rw [operandType, isNumber]
  · refine ensures_bind.mpr (ensures_expect_follows fun t opens before chain => ?_)
    -- The sum in parentheses has a chain of its own, and the one before comes back behind it.
    refine ensures_bind.mpr (ensures_inFreshChain.mpr ((h.expression none _).answer ?_))
    rintro τ u ⟨d, symbol, inside, typed, -⟩
    have between : s.Follows ([.leaf s.lookahead] ++ [d]) { u with chain := t.chain } :=
      before.append ⟨inside.derived, inside.scopes_eq, inside.told⟩
    refine ensures_bind.mpr (ensures_expect_follows fun v closes after chain' => ?_)
    refine ⟨[.leaf s.lookahead, d, .leaf u.lookahead], ?_, between.append after, ?_, ?_⟩
    · exact Tree.allowed_parenthesized opens symbol closes
    · exact typed.trans (congrArg (Tree.valueType · d) before.scopes_eq)
    · exact chain'.trans chain
  · trivial

/-- A term reads a factor, or a factor, an operator and another term. -/
theorem ReadsTrees.rule_term (h : ReadsTrees call) : ReadsChildren .term (rule call .term) := by
  have spares {d : Tree} {q : Production} (symbol : d.symbol = .rule q) (other : q ≠ .expression) :
      d.summands = [] := Tree.summands_eq_nil (by rw [symbol]; simpa using other)
  refine fun s => ensures_bind.mpr (ensures_require.mpr ?_)
  split
  · refine ensures_bind.mpr ((h.factor s).answer ?_)
    rintro τ t ⟨f, symbol, left, typed, chain⟩
    rw [spares symbol nofun] at chain
    refine ensures_bind.mpr (ensures_lookingAt.mpr ?_)
    split
    · next product =>
      refine ensures_bind.mpr (ensures_lookahead.mpr (ensures_bind.mpr ?_))
      refine ensures_accept (fun next input _ _ => ?_) (fun _ _ _ _ => trivial) fun _ => trivial
      have between := left.append (.leaf t next input)
      -- The checks stop the run or change nothing.
      refine ensures_bind.mpr (ensures_lookahead.mpr ?_)
      refine ensures_bind.mpr (ensures_checkFactor.mpr ?_)
      split
      · trivial
      refine ensures_bind.mpr (ensures_typeOf.mpr (ensures_bind.mpr (ensures_checkFactor.mpr ?_)))
      split
      · trivial
      refine ensures_bind.mpr ((h.term _).answer ?_)
      rintro ρ u ⟨d, symbol', right, -, chain'⟩
      rw [spares symbol' nofun] at chain'
      refine ensures_bind.mpr (ensures_checkFactor.mpr ?_)
      split
      · trivial
      refine ⟨[f, .leaf t.lookahead, d], ?_, between.append right, rfl, chain'.trans chain⟩
      exact (Tree.operands_iff Tree.words_term).mpr
        (.inr ⟨f, t.lookahead, d, symbol, by simpa using product, symbol', rfl⟩)
    · refine ⟨[f], ?_, left, typed, chain⟩
      exact (Tree.operands_iff Tree.words_term).mpr (.inl ⟨f, symbol, rfl⟩)
  · trivial

/-- A sum reads a term, or a term, an operator and the rest of the sum. -/
theorem ReadsTrees.rule_expression (h : ReadsTrees call) (join : Option Join) :
    ReadsChildren .expression (rule call (.expression join)) := by
  refine fun s => ensures_bind.mpr (ensures_beginTerm.mpr ?_)
  refine ensures_bind.mpr (ensures_require.mpr ?_)
  split
  · refine ensures_bind.mpr ((h.term _).answer ?_)
    rintro τ t ⟨d, symbol, first, typed, chain⟩
    rw [Tree.summands_eq_nil (by rw [symbol]; nofun)] at chain
    refine ensures_bind.mpr (ensures_recordTerm.mpr (ensures_bind.mpr (ensures_checkSum.mpr ?_)))
    split
    · trivial
    refine ensures_bind.mpr (ensures_lookingAt.mpr ?_)
    -- The chain was begun for the term and took its type.
    have begun : s.Follows [d] { t with chain := t.chain.record τ } :=
      ⟨first.derived, first.scopes_eq, first.told⟩
    have extended : t.chain.record τ = s.chain.extend [d.valueType s.scopes] := by
      rw [chain, typed]
      rfl
    split
    · next sum =>
      refine ensures_bind.mpr (ensures_lookahead.mpr (ensures_bind.mpr ?_))
      refine ensures_accept (fun next input _ _ => ?_) (fun _ _ _ _ => trivial) fun _ => trivial
      have between := begun.append (.leaf _ next input)
      refine ensures_bind.mpr (ensures_lookahead.mpr ?_)
      refine ensures_bind.mpr ((h.expression _ _).answer ?_)
      rintro ρ u ⟨e, symbol', rest, -, chain'⟩
      refine ⟨[d, .leaf t.lookahead, e], ?_, between.append rest, typed, ?_⟩
      · exact (Tree.operands_iff Tree.words_expression).mpr
          (.inr ⟨d, t.lookahead, e, symbol, by simpa using sum, symbol', rfl⟩)
      · rw [chain', between.scopes_eq]
        change (t.chain.record τ).extend _ = _
        rw [extended, ← OperandChain.extend_append]
        rfl
    · refine ⟨[d], ?_, begun, typed, extended⟩
      exact (Tree.operands_iff Tree.words_expression).mpr (.inl ⟨d, symbol, rfl⟩)
  · trivial

/-- What factors, terms and sums read are trees, under every limit. -/
theorem readsTrees_analyser (limit : Nat) : ReadsTrees (analyser limit) := by
  induction limit with
  | zero => exact ⟨fun _ => trivial, fun _ => trivial, fun _ _ => trivial⟩
  | succ limit ih =>
    exact ⟨ih.rule_factor.within, ih.rule_term.within, fun join => (ih.rule_expression join).within⟩

end Analyser

/-- Factors and terms leave the chain around them as they found it, however they end and whatever
parentheses stand in them. A sum that was read on a fresh chain has a derivation; behind it the
chain tells whether there was one term, two or more, and holds the types of the last two. -/
theorem chain_of_sum (limit : Nat) (s : AnalyserState) :
    Ensures (analyser limit .factor) (fun _ t => t.chain = s.chain) (fun _ t => t.chain = s.chain)
      s ∧
    Ensures (analyser limit .term) (fun _ t => t.chain = s.chain) (fun _ t => t.chain = s.chain) s ∧
    ∀ join τ t, s.chain = .fresh → analyser limit (.expression join) s = .ok τ t →
      ∃ d : Tree, d.Derived ∧ d.symbol = .rule .expression ∧ Passes s.place d.yield t.place ∧
        t.trace = s.trace ++ d.trace ∧ d.summands ≠ [] ∧
        OperandChain.Keeps (d.summands.map (Tree.valueType s.scopes)) t.chain := by
  refine ⟨keepsChain_factor limit s, keepsChain_term limit s, fun join τ t fresh run => ?_⟩
  obtain ⟨d, symbol, follows, -, chain⟩ := ((readsTrees_analyser limit).expression join s).of_ok run
  have derived : d.Derived := follows.derived d List.mem_cons_self
  have reaches : Reaches s t := ((composed_analyser limit _).steady s).of_ok run
  have terms : d.summands ≠ [] := derived.summands_ne_nil symbol
  refine ⟨d, derived, symbol, follows.passes reaches, follows.trace_eq, terms, ?_⟩
  rw [chain, fresh]
  exact OperandChain.keeps_extend (by simpa using terms)

/-- The analyser in front of `9 - (n + 1) - n;`, where the name stands for a number. -/
def beforeDifference : AnalyserState where
  lookahead := ⟨.numberLiteral, "9", ⟨2, 6⟩⟩
  input := .ofList [.ok ⟨.minus, "-", ⟨2, 8⟩⟩, .ok ⟨.leftParen, "(", ⟨2, 10⟩⟩,
    .ok ⟨.identifier, "n", ⟨2, 11⟩⟩, .ok ⟨.plus, "+", ⟨2, 13⟩⟩, .ok ⟨.numberLiteral, "1", ⟨2, 15⟩⟩,
    .ok ⟨.rightParen, ")", ⟨2, 16⟩⟩, .ok ⟨.minus, "-", ⟨2, 18⟩⟩, .ok ⟨.identifier, "n", ⟨2, 20⟩⟩,
    .ok ⟨.semicolon, ";", ⟨2, 21⟩⟩]
  scopes := Scopes.empty.declare "n" ⟨"n", .number, ⟨1, 1⟩⟩
  chain := .fresh
  events := #[]
  notices := #[]

theorem chain_of_sum_beforeDifference :
    beforeDifference.chain = .fresh ∧
      ∃ τ t, analyser 11 (.expression none) beforeDifference = .ok τ t ∧
        t.chain = ⟨.nested, .number, .number⟩ ∧
        ∃ d : Tree, d.Derived ∧ d.symbol = .rule .expression ∧ d.summands ≠ [] ∧
          OperandChain.Keeps (d.summands.map (Tree.valueType beforeDifference.scopes)) t.chain := by
  have reads : (Analysis.ofResult (analyser 11 (.expression none) beforeDifference)).outcome =
      .ok .number := by decide +kernel
  have last : (Analysis.ofResult (analyser 11 (.expression none) beforeDifference)).chain =
      ⟨.nested, .number, .number⟩ := by decide +kernel
  obtain ⟨t, read⟩ := outcome_ofResult_eq_ok_iff.mp reads
  rw [read] at last
  obtain ⟨-, -, sums⟩ := chain_of_sum 11 beforeDifference
  obtain ⟨d, derived, symbol, -, -, terms, keeps⟩ := sums none _ t rfl read
  exact ⟨rfl, _, t, read, last, d, derived, symbol, terms, keeps⟩

end BlockLang
