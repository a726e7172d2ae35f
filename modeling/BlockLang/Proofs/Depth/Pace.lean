import BlockLang.Proofs.Grammar.Height
import BlockLang.Proofs.Run.Place

/-!
# The pace of the rules

Before the rule of a production takes a token, it asks only for productions of a smaller rank, and
when it answers it has taken a token. Everything else that it does stands still: it neither takes a
token nor begins or ends a production.

## Main definitions

* `Event.Flat`: the entry neither begins nor ends a production
* `Analyser.Still m`: the move stands still
* `Paced r b m b'`: the move is one that the rule of a production of rank `r` may be made of

## Main results

* `paced_rule`: the pace of the rules
-/

namespace BlockLang

/-- The entry neither begins nor ends a production. -/
def Event.Flat (e : Event) : Prop := e.kind ≠ .begin ∧ e.kind ≠ .finish

/-- From `s` to `t` no token is taken, and no production is begun or ended. -/
structure Idle (s t : AnalyserState) : Prop where
  place_eq : t.place = s.place
  accepted_eq : t.accepted = s.accepted
  told : ∃ events, (∀ e ∈ events, e.Flat) ∧ t.trace = s.trace ++ events

namespace Idle

variable {s t : AnalyserState}

theorem of_eq (hp : t.place = s.place) (ht : t.trace = s.trace) : Idle s t :=
  ⟨hp, congrArg accepted ht, [], by simp, by simpa using ht⟩

theorem emit (s : AnalyserState) {e : Event} (h : e.Flat) (ha : accepted [e] = []) :
    Idle s (s.emit e) :=
  ⟨rfl, by simp [ha], [e], by simpa using h, by simp⟩

end Idle

namespace Analyser

variable {α : Type}

/-- The move stands still, and it is not the limit that stops it. -/
def Still (m : Analyser α) : Prop :=
  ∀ s, Ensures m (fun _ t => Idle s t) (fun stop t => stop ≠ .tooDeep ∧ Idle s t) s

namespace Still

theorem pure (a : α) : Still (Pure.pure a : Analyser α) := fun _ => .of_eq rfl rfl

theorem lookahead : Still lookahead := fun _ => .of_eq rfl rfl

theorem lookingAt (p : TokenType → Bool) : Still (lookingAt p) := fun _ => .of_eq rfl rfl

theorem typeOf (token : Token) : Still (typeOf token) := fun _ => .of_eq rfl rfl

theorem beginChain : Still beginChain := fun _ => .of_eq rfl rfl

theorem beginTerm : Still beginTerm := fun _ => .of_eq rfl rfl

theorem recordTerm (t : ValueType) : Still (recordTerm t) := fun _ => .of_eq rfl rfl

theorem declare (v : Variable) : Still (declare v) := fun s =>
  ⟨rfl, (AnalyserState.accepted_emit ..).trans (List.append_nil _), [.add v],
    by simp [Event.Flat, Event.kind], AnalyserState.trace_emit ..⟩

theorem rejectAt (token : Token) (cause : Cause) : Still (rejectAt token cause : Analyser α) :=
  fun s => ⟨nofun, .emit s ⟨nofun, nofun⟩ rfl⟩

theorem reject (cause : Token → Cause) : Still (reject cause : Analyser α) := fun s =>
  rejectAt (α := α) s.lookahead (cause s.lookahead) s

theorem require (p : TokenType → Bool) (cause : Token → Cause) : Still (require p cause) := by
  intro s
  rw [ensures_require]
  split
  · exact .of_eq rfl rfl
  · exact rejectAt s.lookahead (cause s.lookahead) s

theorem requireDeclared : Still requireDeclared := by
  intro s
  rw [ensures_requireDeclared]
  split
  · split
    · exact .of_eq rfl rfl
    · exact rejectAt _ _ s
  · exact .of_eq rfl rfl

theorem checkSum (join : Option Join) : Still (checkSum join) := by
  intro s
  rw [ensures_checkSum]
  split
  · exact rejectAt _ _ s
  · exact .of_eq rfl rfl

theorem checkFactor (operator : TokenType) (t : ValueType) (side : String) (token : Token) :
    Still (checkFactor operator t side token) := by
  intro s
  rw [ensures_checkFactor]
  split
  · exact rejectAt _ _ s
  · exact .of_eq rfl rfl

end Still

end Analyser

open Analyser

/-- The rule of a production of rank `r` may be made of the move, which asks for its parts. `b` and
`b'` say whether the rule has surely taken a token before and after it. -/
inductive Paced (r : Nat) : {α : Type} → Bool → (Callee → Analyser α) → Bool → Prop
  | still {α : Type} {b : Bool} {m : Analyser α} (h : Still m) : Paced r b (fun _ => m) b
  | refuse {α : Type} {b b' : Bool} (cause : Token → Cause) :
      Paced r b (fun _ => (reject cause : Analyser α)) b'
  | accept {b : Bool} (wanted : TokenType) (h : wanted ≠ .endOfFile) :
      Paced r b (fun _ => Analyser.accept wanted) true
  | acceptSeen {α : Type} {b b' : Bool} {sort : TokenType → Bool}
      {f : Callee → Token → Analyser α} {g : Callee → Analyser α} (h : sort .endOfFile = false)
      (hf : ∀ a, Paced r true (f · a) b') (hg : Paced r b g b') :
      Paced r b (fun call => Analyser.lookingAt sort >>= fun seen =>
        if seen = true then Analyser.lookahead >>= fun t => Analyser.accept t.type >>= f call
        else g call) b'
  | part {b : Bool} (c : Call) (h : b = true ∨ c.production.rank < r) :
      Paced r b (fun call => call c) true
  | bind {α β : Type} {b b' b'' : Bool} {m : Callee → Analyser α} {f : Callee → α → Analyser β} :
      Paced r b m b' → (∀ a, Paced r b' (f · a) b'') →
      Paced r b (fun call => m call >>= f call) b''
  | inFreshChain {α : Type} {b b' : Bool} {m : Callee → Analyser α} :
      Paced r b m b' → Paced r b (fun call => Analyser.inFreshChain (m call)) b'
  | inLoopScope {α : Type} {b b' : Bool} {m : Callee → Analyser α} :
      Paced r b m b' → Paced r b (fun call => Analyser.inLoopScope (m call)) b'

namespace Paced

variable {r : Nat} {b b' : Bool} {α : Type}

theorem expect (wanted : TokenType) (h : wanted ≠ .endOfFile) :
    Paced r b (fun _ => expect wanted) true :=
  .bind (.accept wanted h) fun _ => .still (.pure _)

theorem invalid : Paced r b (fun _ => (reject .invalid : Analyser α)) b' := .refuse _

end Paced

/-- A token of some sort is taken where it stands. -/
theorem acceptSeen_apply {α : Type} (sort : TokenType → Bool) (f : Token → Analyser α)
    (g : Analyser α) (s : AnalyserState) :
    (lookingAt sort >>= fun seen =>
      if seen = true then lookahead >>= fun t => accept t.type >>= f else g) s =
    if sort s.lookahead.type then (accept s.lookahead.type >>= f) s else g s := by
  simp only [Bind.bind, EStateM.bind, lookingAt]
  split <;> rfl

/-- The pace of the rules. -/
theorem paced_rule (c : Call) : Paced c.production.rank false (fun call => rule call c) true := by
  -- The rules are read off move by move.
  cases c with
  | statementPart =>
    exact .bind (.expect _ (by decide)) fun _ => .bind (.part _ (.inl rfl)) fun _ =>
      .expect _ (by decide)
  | statementList =>
    refine .bind (.part _ (.inr (by decide))) fun _ => .bind (.still (.lookingAt _)) fun more => ?_
    split
    · refine .bind (.expect _ (by decide)) fun _ => .bind (.still (.lookingAt _)) fun again => ?_
      split
      · exact .part _ (.inl rfl)
      · exact .still (.pure _)
    · exact .still (.pure _)
  | statement =>
    refine .bind (.still .lookahead) fun t => ?_
    split
    · exact .part _ (.inr (by decide))
    · exact .part _ (.inr (by decide))
    · exact .part _ (.inr (by decide))
    · exact .part _ (.inr (by decide))
    · exact .part _ (.inr (by decide))
    · exact .inLoopScope (.part .forStatement (.inr (by decide)))
    · exact .invalid
  | assignmentStatement =>
    refine .bind (.accept _ (by decide)) fun target => .bind (.expect _ (by decide)) fun _ =>
      .bind (.still .lookahead) fun first => ?_
    split
    · exact .bind (.still .beginChain) fun _ => .bind (.part _ (.inl rfl)) fun _ =>
        .bind (.still (.pure _)) fun _ => .still (.declare _)
    · split
      · exact .bind (.expect _ (by decide)) fun _ => .bind (.still (.pure _)) fun _ =>
          .still (.declare _)
      · exact .bind .invalid fun _ => .still (.declare _)
  | ifStatement =>
    refine .bind (.expect _ (by decide)) fun _ => .bind (.part _ (.inl rfl)) fun _ =>
      .bind (.expect _ (by decide)) fun _ => .bind (.part _ (.inl rfl)) fun _ =>
      .bind (.still .lookahead) fun t => ?_
    split
    · exact .bind (.expect _ (by decide)) fun _ => .expect _ (by decide)
    · exact .bind (.expect _ (by decide)) fun _ => .bind (.part _ (.inl rfl)) fun _ =>
        .bind (.expect _ (by decide)) fun _ => .expect _ (by decide)
    · exact .invalid
  | whileStatement =>
    exact .bind (.expect _ (by decide)) fun _ => .bind (.part _ (.inl rfl)) fun _ =>
      .bind (.expect _ (by decide)) fun _ => .bind (.part _ (.inl rfl)) fun _ =>
      .bind (.expect _ (by decide)) fun _ => .expect _ (by decide)
  | untilStatement =>
    exact .bind (.expect _ (by decide)) fun _ => .bind (.part _ (.inl rfl)) fun _ =>
      .bind (.expect _ (by decide)) fun _ => .part _ (.inl rfl)
  | forStatement =>
    exact .bind (.expect _ (by decide)) fun _ => .bind (.expect _ (by decide)) fun _ =>
      .bind (.part _ (.inl rfl)) fun _ => .bind (.expect _ (by decide)) fun _ =>
      .bind (.part _ (.inl rfl)) fun _ => .bind (.expect _ (by decide)) fun _ =>
      .bind (.part _ (.inl rfl)) fun _ => .bind (.expect _ (by decide)) fun _ =>
      .bind (.expect _ (by decide)) fun _ => .bind (.part _ (.inl rfl)) fun _ =>
      .bind (.expect _ (by decide)) fun _ => .expect _ (by decide)
  | procedureStatement =>
    exact .bind (.expect _ (by decide)) fun _ => .bind (.expect _ (by decide)) fun _ =>
      .bind (.expect _ (by decide)) fun _ => .bind (.part _ (.inl rfl)) fun _ =>
      .expect _ (by decide)
  | argumentList =>
    refine .bind (.still .requireDeclared) fun _ => .bind (.expect _ (by decide)) fun _ =>
      .bind (.still (.lookingAt _)) fun more => ?_
    split
    · exact .bind (.expect _ (by decide)) fun _ => .part _ (.inl rfl)
    · exact .still (.pure _)
  | condition =>
    refine .bind (.still .requireDeclared) fun _ => .bind (.expect _ (by decide)) fun _ =>
      .bind (.part _ (.inl rfl)) fun _ => .bind (.still .lookahead) fun t => ?_
    split
    · exact .bind (.still .requireDeclared) fun _ => .expect _ (by decide)
    · exact .expect _ (by decide)
    · exact .expect _ (by decide)
    · exact .invalid
  | conditionalOperator =>
    -- A token that compares two values is not the end of the file.
    have seen : (fun call => rule call .conditionalOperator) = fun _ : Callee =>
        Analyser.lookingAt (·.isRelational) >>= fun seen =>
          if seen = true then
            Analyser.lookahead >>= fun t => Analyser.accept t.type >>= fun _ => pure ()
          else reject .expectedRelational :=
      funext fun call => require_bind ..
    rw [seen]
    exact .acceptSeen rfl (fun _ => .still (.pure _)) (.refuse _)
  | expression join =>
    refine .bind (.still .beginTerm) fun _ => .bind (.still (.require _ _)) fun _ =>
      .bind (.part .term (.inr (Nat.lt_succ_self 2))) fun t =>
      .bind (.still (.recordTerm _)) fun _ =>
      .bind (.still (.checkSum _)) fun _ => .acceptSeen rfl (fun _ => ?_) (.still (.pure _))
    exact .bind (.still .lookahead) fun _ => .bind (.part (.expression _) (.inl rfl)) fun _ =>
      .still (.pure _)
  | term =>
    refine .bind (.still (.require _ _)) fun _ => .bind (.part .factor (.inr (by decide)))
      fun left => .acceptSeen rfl (fun _ => ?_) (.still (.pure _))
    exact .bind (.still .lookahead) fun _ => .bind (.still (.checkFactor _ _ _ _)) fun _ =>
      .bind (.still (.typeOf _)) fun _ => .bind (.still (.checkFactor _ _ _ _)) fun _ =>
      .bind (.part .term (.inl rfl)) fun _ => .bind (.still (.checkFactor _ _ _ _)) fun _ =>
      .still (.pure _)
  | factor =>
    refine .bind (.still .lookahead) fun t => ?_
    split
    · exact .bind (.still .requireDeclared) fun _ => .bind (.expect _ (by decide)) fun _ =>
        .still (.pure _)
    · exact .bind (.expect _ (by decide)) fun _ => .still (.pure _)
    · exact .bind (.expect _ (by decide)) fun _ =>
        .bind (.inFreshChain (.part (.expression none) (.inl rfl))) fun _ =>
        .bind (.expect _ (by decide)) fun _ => .still (.pure _)
    · exact .invalid

end BlockLang
