import BlockLang.Proofs.Reading.Expressions
import BlockLang.Proofs.Reading.Stands

/-!
# Reading values

Expressions, terms and factors are read as their derivations say, and they answer with the one type
that their tokens have under the declarations so far, or stop if the tokens have none.

## Main definitions

* `Analyser.Types m has good s`: the move answers the one type there is, or stops if there is none
* `Tree.ReadsValue`: a derivation of a value is read under a limit

## Main results

* `Tree.Derived.readsValue`: every derivation of a value is read under a limit that its height
  allows
-/

namespace BlockLang

namespace Analyser

/-- The move answers the one type there is and leaves a good state, or stops if there is none. -/
def Types (m : Analyser ValueType) (has : ValueType → Prop) (good : AnalyserState → Prop)
    (s : AnalyserState) : Prop :=
  Ensures m (fun τ t => (∀ σ, has σ ↔ σ = τ) ∧ good t) (fun _ _ => ∀ σ, ¬has σ) s

end Analyser

open Analyser

/-- A derivation of a value is read under a limit. -/
structure Tree.ReadsValue (limit : Nat) (d : Tree) : Prop where
  factor : d.symbol = .rule .factor → ∀ {s δ next}, Stands s δ d.yield next →
    Types (analyser limit .factor) (HasType δ d.yield)
      (fun t => Stands t δ [] next ∧ t.chain = s.chain) s
  term : d.symbol = .rule .term → ∀ {s δ next}, Stands s δ d.yield next →
    Production.term.goesOn next.1.type = false →
    Types (analyser limit .term) (HasType δ d.yield)
      (fun t => Stands t δ [] next ∧ t.chain = s.chain) s
  expression : d.symbol = .rule .expression → ∀ (join : Option Join) {s δ next},
    Stands s δ d.yield next → Production.expression.goesOn next.1.type = false →
    Join.Ready join s.chain →
    Types (analyser limit (.expression join))
      (fun σ => HasType δ d.yield σ ∧ Join.Fits s.chain σ join) (fun t => Stands t δ [] next) s

variable {δ : Declarations} {s t : AnalyserState} {next : Place} {limit : Nat} {token : Token}
  {w taken : List Token} {σ : ValueType}

theorem hasType_string (ht : token.type = .stringLiteral) :
    HasType δ [token] σ ↔ σ = .string := by
  have string : operandType δ.scopes token = .string := by rw [operandType, ht]
  rw [hasType_iff_uniform, uniform_operand (by rw [ht]; rfl) (by rw [string]; decide), string]

/-! ## Declarations and their scopes -/

/-- Where declarations stand before tokens, the scopes that hold them do. -/
theorem Stands.meets (h : Stands s δ w next) : Meets s δ.scopes s.accepted w next := by
  refine ⟨h.passes, h.scopes_eq, rfl, fun t _ _ x hx => ?_⟩
  rw [δ.lookup_scopes] at hx
  exact h.known.lookup hx

theorem Meets.stands (h : Meets t δ.scopes taken w next) (known : δ.Known) : Stands t δ w next :=
  ⟨h.passes, h.scopes_eq, known⟩

/-- What is read under some scopes is read under declarations that they hold. -/
theorem types_of_values {m : Analyser ValueType} {has : ValueType → Prop}
    {good good' : AnalyserState → Prop} {bad : Stop → Prop}
    (h : Values m has good bad s) (hg : ∀ t, good t → good' t) : Types m has good' s :=
  h.imp (fun _ t ht => ⟨ht.1, hg t ht.2⟩) fun _ _ hs => hs.1

/-- Every derivation of a value is read under a limit that its height allows. -/
theorem Tree.Derived.readsValue {d : Tree} (hd : d.Derived) (high : d.height ≤ limit) :
    d.ReadsValue limit := by
  have reads := hd.evaluates high
  have same (δ : Declarations) : Uniform δ.scopes d.yield = HasType δ d.yield :=
    funext fun σ => propext hasType_iff_uniform.symm
  refine ⟨?factor, ?term, ?expression⟩
  case factor =>
    intro hs s δ next h
    rw [← same]
    exact types_of_values (reads.factor hs h.meets) fun t ht => ⟨ht.1.stands h.known, ht.2⟩
  case term =>
    intro hs s δ next h closed
    rw [← same]
    exact types_of_values (reads.term hs h.meets closed) fun t ht => ⟨ht.1.stands h.known, ht.2⟩
  case expression =>
    intro hs join s δ next h closed ready
    rw [← same]
    exact types_of_values (reads.expression hs join h.meets closed ready) fun t ht =>
      ht.stands h.known

end BlockLang
