import BlockLang.Proofs.Run.Outcome

/-!
# What rules are made of

The rule of a production is put together from the moves of the analyser and from other productions.
Where identifiers directly below a production stand for values, the rule takes none without asking
for its declaration, and the productions it is made of take none otherwise either. A loop is run in
a scope of its own, and no other production opens one. Only an assignment declares a variable.

## Main definitions

* `Production.reads`: identifiers directly below the production stand for values
* `Production.readsOnly`: all identifiers inside the production stand for values
* `Assembled call p m`: the move is one that the rule of `p` may be made of, its parts being
  analysed by `call`

## Main results

* `assembled_rule`: what the rules are made of
-/

namespace BlockLang

/-- Identifiers directly below the production stand for values. -/
def Production.reads : Production → Bool
  | .factor | .condition | .argumentList => true
  | _ => false

/-- All identifiers inside the production stand for values. -/
def Production.readsOnly : Production → Bool
  | .argumentList | .condition | .conditionalOperator | .expression | .term | .factor => true
  | _ => false

theorem Production.readsOnly_of_reads {p : Production} (h : p.reads) : p.readsOnly := by
  revert h
  cases p <;> decide

open Analyser

/-- The move is put together from what the rule of `p` may be made of. -/
inductive Assembled (call : Callee) (p : Production) : {α : Type} → Analyser α → Prop
  | pure {α : Type} (a : α) : Assembled call p (Pure.pure a : Analyser α)
  | bind {α β : Type} {m : Analyser α} {f : α → Analyser β} :
      Assembled call p m → (∀ a, Assembled call p (f a)) → Assembled call p (m >>= f)
  | lookahead : Assembled call p lookahead
  | lookingAt (sort : TokenType → Bool) : Assembled call p (lookingAt sort)
  | typeOf (token : Token) : Assembled call p (typeOf token)
  | accept (wanted : TokenType) (h : p.readsOnly → wanted ≠ .identifier) :
      Assembled call p (accept wanted)
  | acceptSeen {α : Type} {sort : TokenType → Bool} {f : Token → Analyser α} {g : Analyser α}
      (h : sort .identifier = false) (hf : ∀ a, Assembled call p (f a)) (hg : Assembled call p g) :
      Assembled call p (Analyser.lookingAt sort >>= fun seen =>
        if seen = true then Analyser.lookahead >>= fun t => Analyser.accept t.type >>= f else g)
  | use {α : Type} {f : ValueType → Analyser α} (h : p.reads) (hf : ∀ t, Assembled call p (f t)) :
      Assembled call p (requireDeclared >>= fun t => expect .identifier >>= fun _ => f t)
  | refuse {α : Type} {cause : Token → Cause} (h : ∀ t, (cause t).kind = .parse) :
      Assembled call p (reject cause : Analyser α)
  | mismatch {α : Type} (token : Token) (m : Mismatch) :
      Assembled call p (rejectAt token (.mismatch m) : Analyser α)
  | declare (v : Variable) (h : p = .assignmentStatement) : Assembled call p (declare v)
  | beginChain : Assembled call p beginChain
  | beginTerm : Assembled call p beginTerm
  | recordTerm (t : ValueType) : Assembled call p (recordTerm t)
  | checkSum (join : Option Join) : Assembled call p (checkSum join)
  | inFreshChain {α : Type} {body : Analyser α} :
      Assembled call p body → Assembled call p (inFreshChain body)
  | part (c : Call) (plain : c.production ≠ .forStatement)
      (h : p.readsOnly = false ∨ c.production.readsOnly) : Assembled call p (call c)
  | loop (h : p.readsOnly = false) : Assembled call p (inLoopScope (call .forStatement))

/-- A token of no fitting sort is refused, and otherwise the rule goes on. -/
theorem require_bind {α : Type} (sort : TokenType → Bool) (cause : Token → Cause)
    (f : Unit → Analyser α) : (require sort cause >>= f) =
      lookingAt sort >>= fun seen => if seen = true then f () else reject cause := by
  rw [require, bind_assoc]
  refine congrArg (lookingAt sort >>= ·) (funext fun seen => ?_)
  cases seen <;> rfl

namespace Assembled

variable {call : Callee} {p : Production} {α : Type}

theorem expect (wanted : TokenType) (h : p.readsOnly → wanted ≠ .identifier) :
    Assembled call p (expect wanted) :=
  .bind (.accept wanted h) fun _ => .pure _

theorem invalid : Assembled call p (reject .invalid : Analyser α) := .refuse fun _ => rfl

theorem require (sort : TokenType → Bool) {cause : Token → Cause}
    (h : ∀ t, (cause t).kind = .parse) : Assembled call p (require sort cause) := by
  refine .bind (.lookingAt sort) fun b => ?_
  cases b
  · exact .refuse h
  · exact .pure _

/-- An identifier that stands for a value, at the end of a rule. -/
theorem useLast (h : p.reads) :
    Assembled call p (requireDeclared >>= fun _ => Analyser.expect .identifier) := by
  have whole : Assembled call p (requireDeclared >>= fun _ =>
      Analyser.expect .identifier >>= fun _ => Pure.pure ()) := .use h fun _ => .pure ()
  simpa only [bind_pure_unit] using whole

theorem checkFactor (operator : TokenType) (t : ValueType) (side : String) (token : Token) :
    Assembled call p (checkFactor operator t side token) := by
  unfold Analyser.checkFactor
  split
  · exact .mismatch _ _
  · exact .pure _

end Assembled

/-- What the rules are made of. -/
theorem assembled_rule (call : Callee) (c : Call) : Assembled call c.production (rule call c) := by
  -- The rules are read off move by move.
  cases c with
  | statementPart =>
    exact .bind (.expect _ (by decide)) fun _ => .bind (.part _ nofun (.inl rfl)) fun _ =>
      .expect _ (by decide)
  | statementList =>
    refine .bind (.part _ nofun (.inl rfl)) fun _ => .bind (.lookingAt _) fun more => ?_
    split
    · refine .bind (.expect _ (by decide)) fun _ => .bind (.lookingAt _) fun again => ?_
      split
      · exact .part _ nofun (.inl rfl)
      · exact .pure _
    · exact .pure _
  | statement =>
    refine .bind .lookahead fun t => ?_
    split
    · exact .part _ nofun (.inl rfl)
    · exact .part _ nofun (.inl rfl)
    · exact .part _ nofun (.inl rfl)
    · exact .part _ nofun (.inl rfl)
    · exact .part _ nofun (.inl rfl)
    · exact .loop rfl
    · exact .invalid
  | assignmentStatement =>
    refine .bind (.accept _ (by decide)) fun target => .bind (.expect _ (by decide)) fun _ =>
      .bind .lookahead fun first => ?_
    split
    · exact .bind .beginChain fun _ => .bind (.part _ nofun (.inl rfl)) fun _ =>
        .bind (.pure _) fun _ => .declare _ rfl
    · split
      · exact .bind (.expect _ (by decide)) fun _ => .bind (.pure _) fun _ => .declare _ rfl
      · exact .bind .invalid fun _ => .declare _ rfl
  | ifStatement =>
    refine .bind (.expect _ (by decide)) fun _ => .bind (.part _ nofun (.inl rfl)) fun _ =>
      .bind (.expect _ (by decide)) fun _ => .bind (.part _ nofun (.inl rfl)) fun _ =>
      .bind .lookahead fun t => ?_
    split
    · exact .bind (.expect _ (by decide)) fun _ => .expect _ (by decide)
    · exact .bind (.expect _ (by decide)) fun _ => .bind (.part _ nofun (.inl rfl)) fun _ =>
        .bind (.expect _ (by decide)) fun _ => .expect _ (by decide)
    · exact .invalid
  | whileStatement =>
    exact .bind (.expect _ (by decide)) fun _ => .bind (.part _ nofun (.inl rfl)) fun _ =>
      .bind (.expect _ (by decide)) fun _ => .bind (.part _ nofun (.inl rfl)) fun _ =>
      .bind (.expect _ (by decide)) fun _ => .expect _ (by decide)
  | untilStatement =>
    exact .bind (.expect _ (by decide)) fun _ => .bind (.part _ nofun (.inl rfl)) fun _ =>
      .bind (.expect _ (by decide)) fun _ => .part _ nofun (.inl rfl)
  | forStatement =>
    exact .bind (.expect _ (by decide)) fun _ => .bind (.expect _ (by decide)) fun _ =>
      .bind (.part _ nofun (.inl rfl)) fun _ => .bind (.expect _ (by decide)) fun _ =>
      .bind (.part _ nofun (.inl rfl)) fun _ => .bind (.expect _ (by decide)) fun _ =>
      .bind (.part _ nofun (.inl rfl)) fun _ => .bind (.expect _ (by decide)) fun _ =>
      .bind (.expect _ (by decide)) fun _ => .bind (.part _ nofun (.inl rfl)) fun _ =>
      .bind (.expect _ (by decide)) fun _ => .expect _ (by decide)
  | procedureStatement =>
    exact .bind (.expect _ (by decide)) fun _ => .bind (.expect _ (by decide)) fun _ =>
      .bind (.expect _ (by decide)) fun _ => .bind (.part _ nofun (.inl rfl)) fun _ =>
      .expect _ (by decide)
  | argumentList =>
    refine .use rfl fun _ => .bind (.lookingAt _) fun more => ?_
    split
    · exact .bind (.expect _ (by decide)) fun _ => .part _ nofun (.inr rfl)
    · exact .pure _
  | condition =>
    refine .use rfl fun _ => .bind (.part _ nofun (.inr rfl)) fun _ =>
      .bind .lookahead fun t => ?_
    split
    · exact .useLast rfl
    · exact .expect _ (by decide)
    · exact .expect _ (by decide)
    · exact .invalid
  | conditionalOperator =>
    -- A token that compares two values is no identifier.
    rw [rule, require_bind]
    exact .acceptSeen rfl (fun _ => .pure _) (.refuse fun _ => rfl)
  | expression join =>
    refine .bind .beginTerm fun _ => .bind (.require _ fun _ => rfl) fun _ =>
      .bind (.part .term nofun (.inr rfl)) fun t => .bind (.recordTerm _) fun _ =>
      .bind (.checkSum _) fun _ => .acceptSeen rfl (fun _ => ?_) (.pure _)
    exact .bind .lookahead fun _ => .bind (.part (.expression _) nofun (.inr rfl)) fun _ =>
      .pure _
  | term =>
    refine .bind (.require _ fun _ => rfl) fun _ =>
      .bind (.part .factor nofun (.inr rfl)) fun left =>
      .acceptSeen rfl (fun _ => ?_) (.pure _)
    exact .bind .lookahead fun _ => .bind (.checkFactor ..) fun _ => .bind (.typeOf _) fun _ =>
      .bind (.checkFactor ..) fun _ => .bind (.part .term nofun (.inr rfl)) fun _ =>
      .bind (.checkFactor ..) fun _ => .pure _
  | factor =>
    refine .bind .lookahead fun t => ?_
    split
    · exact .use rfl fun _ => .pure _
    · exact .bind (.expect _ (by decide)) fun _ => .pure _
    · exact .bind (.expect _ (by decide)) fun _ =>
        .bind (.inFreshChain (.part (.expression none) nofun (.inr rfl))) fun _ =>
        .bind (.expect _ (by decide)) fun _ => .pure _
    · exact .invalid

end BlockLang
