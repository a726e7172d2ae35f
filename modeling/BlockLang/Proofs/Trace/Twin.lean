import BlockLang.Analysis

/-!
# Moves for two sinks

The rules are written once for all sinks. So the moves that they make for two sinks are twins: they
are put together alike, and differ in nothing but the sink that they tell. What a move says beyond
the names of productions it has from tokens that were handed out: a cause quotes the token that is
refused, and a declaration names its target.

## Main definitions

* `Cause.From T`, `Call.From T`: what is quoted comes from tokens with the property `T`
* `Names T v`: the variable has its name and position from an identifier
* `Twin T m n`: the moves are put together alike, from tokens with the property `T`

## Main results

* `twin_rule`: a production does the same for both sinks if its parts do
* `twin_analyser`, `twin_program`: every production does the same for both sinks, and every program
-/

namespace BlockLang

open Analyser

variable (T : Token → Prop)

/-- A mismatch at a factor tells the side of its operator. -/
def Mismatch.Sided : Mismatch → Prop
  | stringFactor _ side => side = "left" ∨ side = "right"
  | _ => True

/-- The token or the name that a cause quotes comes from a token with the property. -/
def Cause.From : Cause → Prop
  | expected _ got | expectedRelational got | invalid got | trailing got => T got
  | undeclared name => ∃ t, T t ∧ t.type = .identifier ∧ name = t.value
  | mismatch m => m.Sided

/-- What a call is told about its surroundings comes from a token with the property. -/
def Call.From : Call → Prop
  | expression (some join) => T join.operand
  | _ => True

/-- The variable has its name and position from an identifier with the property. -/
def Names (v : Variable) : Prop :=
  ∃ t, T t ∧ t.type = .identifier ∧ v.identifier = t.value ∧ v.position = t.position

variable {σ τ : Type} [TraceSink σ] [TraceSink τ]

/-- The moves are put together alike from the moves of the analyser, and quote nothing but tokens
with the property. What is done with a token depends on the one that was looked at or taken. -/
inductive Twin : {α : Type} → AnalyserTo σ α → AnalyserTo τ α → Prop
  | pure {α : Type} (a : α) : Twin (Pure.pure a) (Pure.pure a)
  | bind {α β : Type} {m : AnalyserTo σ α} {n : AnalyserTo τ α} {f : α → AnalyserTo σ β}
      {g : α → AnalyserTo τ β} :
      Twin m n → (∀ a, Twin (f a) (g a)) → Twin (m >>= f) (n >>= g)
  | tooDeep {α : Type} : Twin (α := α) (throw .tooDeep) (throw .tooDeep)
  | looking {α : Type} {f : Token → AnalyserTo σ α} {g : Token → AnalyserTo τ α} :
      (∀ t, T t → Twin (f t) (g t)) → Twin (lookahead >>= f) (lookahead >>= g)
  | taking {α : Type} (wanted : TokenType) {f : Token → AnalyserTo σ α}
      {g : Token → AnalyserTo τ α} :
      (∀ t, T t → t.type = wanted → Twin (f t) (g t)) → Twin (accept wanted >>= f)
        (accept wanted >>= g)
  | lookingAt (sort : TokenType → Bool) : Twin (lookingAt sort) (lookingAt sort)
  | typeOf (token : Token) : Twin (typeOf token) (typeOf token)
  | refuse {α : Type} {cause : Token → Cause} (h : ∀ t, T t → (cause t).From T) :
      Twin (α := α) (reject cause) (reject cause)
  | mismatch {α : Type} {token : Token} {m : Mismatch} (h : T token) (hm : m.Sided) :
      Twin (α := α) (rejectAt token (.mismatch m)) (rejectAt token (.mismatch m))
  | requireDeclared : Twin requireDeclared requireDeclared
  | declare {v : Variable} (h : Names T v) : Twin (declare v) (declare v)
  | beginChain : Twin beginChain beginChain
  | beginTerm : Twin beginTerm beginTerm
  | recordTerm (t : ValueType) : Twin (recordTerm t) (recordTerm t)
  | checkSum {join : Option Join} (h : ∀ j ∈ join, T j.operand) :
      Twin (checkSum join) (checkSum join)
  | inFreshChain {α : Type} {m : AnalyserTo σ α} {n : AnalyserTo τ α} :
      Twin m n → Twin (inFreshChain m) (inFreshChain n)
  | inLoopScope {α : Type} {m : AnalyserTo σ α} {n : AnalyserTo τ α} :
      Twin m n → Twin (inLoopScope m) (inLoopScope n)
  | within {α : Type} (p : Production) {m : AnalyserTo σ α} {n : AnalyserTo τ α} :
      Twin m n → Twin (within p m) (within p n)

variable {T}

namespace Twin

variable {α : Type}

theorem expect (wanted : TokenType) :
    Twin T (expect wanted : AnalyserTo σ Unit) (expect wanted : AnalyserTo τ Unit) :=
  .taking wanted fun _ _ _ => .pure _

theorem invalid : Twin T (reject .invalid : AnalyserTo σ α) (reject .invalid : AnalyserTo τ α) :=
  .refuse fun _ ht => ht

theorem require (sort : TokenType → Bool) {cause : Token → Cause}
    (h : ∀ t, T t → (cause t).From T) :
    Twin T (require sort cause : AnalyserTo σ Unit) (require sort cause : AnalyserTo τ Unit) := by
  refine .bind (.lookingAt sort) fun b => ?_
  cases b
  · exact .refuse h
  · exact .pure _

theorem checkFactor (operator : TokenType) (t : ValueType) {side : String} {token : Token}
    (hs : side = "left" ∨ side = "right") (h : T token) :
    Twin T (checkFactor operator t side token : AnalyserTo σ Unit)
      (checkFactor operator t side token : AnalyserTo τ Unit) := by
  unfold Analyser.checkFactor multiplicativeMismatch?
  split
  · next m hm =>
    split at hm
    · cases hm
      exact .mismatch h hs
    · cases hm
  · exact .pure _

end Twin

variable {call : Callee σ} {call' : Callee τ}

/-- A production does the same for both sinks if its parts do. -/
theorem twin_rule (parts : ∀ c : Call, c.From T → Twin T (call c) (call' c)) (c : Call)
    (hc : c.From T) : Twin T (rule call c) (rule call' c) := by
  -- The rules are read off move by move.
  cases c with
  | statementPart =>
    exact .bind (.expect _) fun _ => .bind (parts _ trivial) fun _ => .expect _
  | statementList =>
    refine .bind (parts _ trivial) fun _ => .bind (.lookingAt _) fun more => ?_
    split
    · refine .bind (.expect _) fun _ => .bind (.lookingAt _) fun again => ?_
      split
      · exact parts _ trivial
      · exact .pure _
    · exact .pure _
  | statement =>
    refine .looking fun t _ => ?_
    split
    · exact parts _ trivial
    · exact parts _ trivial
    · exact parts _ trivial
    · exact parts _ trivial
    · exact parts _ trivial
    · exact .inLoopScope (parts _ trivial)
    · exact .invalid
  | assignmentStatement =>
    refine .taking _ fun target ht identifier => ?_
    refine .bind (.expect _) fun _ => .looking fun first _ => ?_
    have names (type : ValueType) : Names T ⟨target.value, type, target.position⟩ :=
      ⟨target, ht, identifier, rfl, rfl⟩
    split
    · exact .bind .beginChain fun _ => .bind (parts (.expression none) trivial) fun _ =>
        .bind (.pure _) fun _ => .declare (names _)
    · split
      · exact .bind (.expect _) fun _ => .bind (.pure _) fun _ => .declare (names _)
      · exact .bind .invalid fun _ => .declare (names _)
  | ifStatement =>
    refine .bind (.expect _) fun _ => .bind (parts _ trivial) fun _ =>
      .bind (.expect _) fun _ => .bind (parts _ trivial) fun _ => .looking fun t _ => ?_
    split
    · exact .bind (.expect _) fun _ => .expect _
    · exact .bind (.expect _) fun _ => .bind (parts _ trivial) fun _ =>
        .bind (.expect _) fun _ => .expect _
    · exact .invalid
  | whileStatement =>
    exact .bind (.expect _) fun _ => .bind (parts _ trivial) fun _ =>
      .bind (.expect _) fun _ => .bind (parts _ trivial) fun _ =>
      .bind (.expect _) fun _ => .expect _
  | untilStatement =>
    exact .bind (.expect _) fun _ => .bind (parts _ trivial) fun _ =>
      .bind (.expect _) fun _ => parts _ trivial
  | forStatement =>
    exact .bind (.expect _) fun _ => .bind (.expect _) fun _ =>
      .bind (parts _ trivial) fun _ => .bind (.expect _) fun _ =>
      .bind (parts _ trivial) fun _ => .bind (.expect _) fun _ =>
      .bind (parts _ trivial) fun _ => .bind (.expect _) fun _ =>
      .bind (.expect _) fun _ => .bind (parts _ trivial) fun _ =>
      .bind (.expect _) fun _ => .expect _
  | procedureStatement =>
    exact .bind (.expect _) fun _ => .bind (.expect _) fun _ => .bind (.expect _) fun _ =>
      .bind (parts _ trivial) fun _ => .expect _
  | argumentList =>
    refine .bind .requireDeclared fun _ => .bind (.expect _) fun _ =>
      .bind (.lookingAt _) fun more => ?_
    split
    · exact .bind (.expect _) fun _ => parts _ trivial
    · exact .pure _
  | condition =>
    refine .bind .requireDeclared fun _ => .bind (.expect _) fun _ => ?_
    refine .bind (parts _ trivial) fun _ => .looking fun t _ => ?_
    split
    · exact .bind .requireDeclared fun _ => .expect _
    · exact .expect _
    · exact .expect _
    · exact .invalid
  | conditionalOperator =>
    exact .bind (.require _ fun _ ht => ht) fun _ => .looking fun t _ => .expect _
  | expression join =>
    have operand : ∀ j ∈ join, T j.operand := by
      intro j hj
      obtain rfl := hj
      exact hc
    refine .bind .beginTerm fun _ => .bind (.require _ fun _ ht => ht) fun _ =>
      .bind (parts .term trivial) fun t => .bind (.recordTerm _) fun _ =>
      .bind (.checkSum operand) fun _ => .bind (.lookingAt _) fun more => ?_
    split
    · exact .looking fun _ _ => .taking _ fun operator _ _ => .looking fun next hn =>
        .bind (parts (.expression (some ⟨operator.type, next⟩)) hn) fun _ => .pure _
    · exact .pure _
  | term =>
    refine .bind (.require _ fun _ ht => ht) fun _ => .bind (parts .factor trivial) fun left =>
      .bind (.lookingAt _) fun more => ?_
    split
    · exact .looking fun _ _ => .taking _ fun operator _ _ => .looking fun next hn =>
        .bind (.checkFactor _ _ (.inl rfl) hn) fun _ => .bind (.typeOf _) fun _ =>
        .bind (.checkFactor _ _ (.inr rfl) hn) fun _ => .bind (parts .term trivial) fun _ =>
        .bind (.checkFactor _ _ (.inr rfl) hn) fun _ => .pure _
    · exact .pure _
  | factor =>
    refine .looking fun t _ => ?_
    split
    · exact .bind .requireDeclared fun _ => .bind (.expect _) fun _ => .pure _
    · exact .bind (.expect _) fun _ => .pure _
    · exact .bind (.expect _) fun _ => .bind (.inFreshChain (parts (.expression none) trivial))
        fun _ => .bind (.expect _) fun _ => .pure _
    · exact .invalid

/-- Every production does the same for both sinks, under every limit. -/
theorem twin_analyser (limit : Nat) (c : Call) (hc : c.From T) :
    Twin T (analyser (σ := σ) limit c) (analyser (σ := τ) limit c) := by
  induction limit generalizing c with
  | zero => exact .tooDeep
  | succ limit ih => exact .within _ (twin_rule ih c hc)

/-- A program does the same for both sinks. -/
theorem twin_program (limit : Nat) :
    Twin T (program (σ := σ) limit) (program (σ := τ) limit) :=
  .bind (twin_analyser limit .statementPart trivial) fun _ => .require _ fun _ ht => ht

end BlockLang
