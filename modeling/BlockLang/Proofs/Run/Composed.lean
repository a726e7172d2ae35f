import BlockLang.Proofs.Run.Assembled

/-!
# Composed moves

The productions are put together from a few moves: what the analyser looks at, what it takes or
refuses, what it keeps about scopes and sums, and the frames around moves. A law that each of these
moves has and that each frame keeps is a law of every production, under every limit.

## Main definitions

* `Analyser.Composed`: the move is put together from the moves of the analyser

## Main results

* `composed_rule`: a production is composed if its parts are
* `composed_analyser`, `composed_program`: every production is composed, and every program
-/

namespace BlockLang

namespace Analyser

/-- The move is put together from the moves of the analyser. -/
inductive Composed : {α : Type} → Analyser α → Prop
  | pure {α : Type} (a : α) : Composed (Pure.pure a : Analyser α)
  | bind {α β : Type} {m : Analyser α} {f : α → Analyser β} :
      Composed m → (∀ a, Composed (f a)) → Composed (m >>= f)
  | tooDeep {α : Type} : Composed (throw .tooDeep : Analyser α)
  | lookahead : Composed lookahead
  | lookingAt (p : TokenType → Bool) : Composed (lookingAt p)
  | typeOf (token : Token) : Composed (typeOf token)
  | accept (wanted : TokenType) : Composed (accept wanted)
  | refuse {α : Type} {cause : Token → Cause} (h : ∀ t, (cause t).kind = .parse) :
      Composed (reject cause : Analyser α)
  | mismatch {α : Type} (token : Token) (m : Mismatch) :
      Composed (rejectAt token (.mismatch m) : Analyser α)
  | requireDeclared : Composed requireDeclared
  | declare (v : Variable) : Composed (declare v)
  | beginChain : Composed beginChain
  | beginTerm : Composed beginTerm
  | recordTerm (t : ValueType) : Composed (recordTerm t)
  | checkSum (join : Option Join) : Composed (checkSum join)
  | inFreshChain {α : Type} {body : Analyser α} : Composed body → Composed (inFreshChain body)
  | inLoopScope {α : Type} {body : Analyser α} : Composed body → Composed (inLoopScope body)
  | within {α : Type} (p : Production) {body : Analyser α} :
      Composed body → Composed (within p body)

namespace Composed

theorem expect (wanted : TokenType) : Composed (expect wanted) :=
  .bind (.accept wanted) fun _ => .pure _

theorem require (p : TokenType → Bool) {cause : Token → Cause}
    (h : ∀ t, (cause t).kind = .parse) : Composed (require p cause) := by
  refine .bind (.lookingAt p) fun b => ?_
  cases b
  · exact .refuse h
  · exact .pure _

end Composed

end Analyser

open Analyser

/-- What rules are made of is composed if the parts are. -/
theorem Assembled.composed {call : Callee} {p : Production} {α : Type} {m : Analyser α}
    (h : Assembled call p m) (parts : ∀ c, Composed (call c)) : Composed m := by
  induction h with
  | pure a => exact .pure a
  | bind _ _ ihm ihf => exact .bind ihm ihf
  | lookahead => exact .lookahead
  | lookingAt sort => exact .lookingAt sort
  | typeOf token => exact .typeOf token
  | accept wanted _ => exact .accept wanted
  | acceptSeen _ _ _ ihf ihg =>
    refine .bind (.lookingAt _) fun seen => ?_
    cases seen
    · exact ihg
    · exact .bind .lookahead fun t => .bind (.accept _) ihf
  | use _ _ ihf => exact .bind .requireDeclared fun t => .bind (.expect _) fun _ => ihf t
  | refuse h => exact .refuse h
  | mismatch token m => exact .mismatch token m
  | declare v _ => exact .declare v
  | beginChain => exact .beginChain
  | beginTerm => exact .beginTerm
  | recordTerm t => exact .recordTerm t
  | checkSum join => exact .checkSum join
  | inFreshChain _ ih => exact .inFreshChain ih
  | part c _ _ => exact parts c
  | loop _ => exact .inLoopScope (parts .forStatement)

/-- A production is composed if its parts are. -/
theorem composed_rule {call : Callee} (parts : ∀ c, Composed (call c)) (c : Call) :
    Composed (rule call c) :=
  (assembled_rule call c).composed parts

/-- Every production is composed, under every limit. -/
theorem composed_analyser (limit : Nat) (c : Call) : Composed (analyser limit c) := by
  induction limit generalizing c with
  | zero => exact .tooDeep
  | succ limit ih => exact .within _ (composed_rule ih c)

/-- A program is composed. -/
theorem composed_program (limit : Nat) : Composed (program limit) :=
  .bind (composed_analyser limit .statementPart) fun _ => .require _ fun _ => rfl

end BlockLang
