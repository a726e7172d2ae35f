import BlockLang.Proofs.Truncation.Abreast

/-!
# Cut runs of productions

No production can begin at the end of the file, and only expressions and terms look at types. Where
a run is cut inside an expression, the terms that it has read are checked as in the run that goes
on: what that run may still put behind a term multiplies or divides it, so that the term stands for
a number either way.

## Main definitions

* `Analyser.Keeps m`: the move leaves the sum that is being read as it is
* `Analyser.CutsValue m`: what a move does whose answer is a type
* `CutParts call`: what the productions do in runs that are cut

## Main results

* `starves_rule`: no production can begin at the end of the file
* `cuttable_rule`: the rules of statements
* `cutsValue_expression`, `cutsValue_term`, `cutsValue_factor`: the rules of values
* `cutParts_analyser`: every production, under every limit
-/

namespace BlockLang

open Analyser

variable {α β : Type} {call : Callee} {s s' t t' : AnalyserState}

/-! ## At the end of the file -/

/-- No rule can begin at the end of the file if its parts cannot. -/
theorem starves_rule (parts : ∀ c, Starves (call c)) (c : Call) : Starves (rule call c) := by
  cases c with
  | statementList => exact (parts .statement).bind
  | assignmentStatement => exact (starves_accept (by decide)).bind
  | argumentList | condition =>
    exact lingers_requireDeclared.starves fun _ => (starves_expect (by decide)).bind
  | conditionalOperator => exact (starves_require rfl fun _ => rfl).bind
  | expression join =>
    have lingers : Lingers beginTerm := fun s hs => hs
    exact lingers.starves fun _ => (starves_require rfl fun _ => rfl).bind
  | term => exact (starves_require rfl fun _ => rfl).bind
  | statement | factor =>
    refine starves_lookahead fun t ht => ?_
    simp only [ht]
    exact starves_reject fun _ => rfl
  | _ => exact (starves_expect (by decide)).bind

theorem starves_analyser (limit : Nat) (c : Call) : Starves (analyser limit c) := by
  induction limit generalizing c with
  | zero => exact fun s _ => noMismatch_tooDeep
  | succ limit ih => exact (starves_rule ih c).within c.production

/-! ## The sum that is being read -/

namespace Analyser

/-- The move leaves the sum that is being read as it is. -/
def Keeps (m : Analyser α) : Prop :=
  ∀ s, Ensures m (fun _ t => t.chain = s.chain) (fun _ _ => True) s

namespace Keeps

theorem pure (a : α) : Keeps (Pure.pure a : Analyser α) := fun _ => rfl

theorem lookahead : Keeps lookahead := fun _ => rfl

theorem lookingAt (p : TokenType → Bool) : Keeps (lookingAt p) := fun _ => rfl

theorem typeOf (token : Token) : Keeps (typeOf token) := fun _ => rfl

theorem reject (cause : Token → Cause) : Keeps (reject cause : Analyser α) := fun _ => trivial

theorem bind {m : Analyser α} {f : α → Analyser β} (h : Keeps m) (h' : ∀ a, Keeps (f a)) :
    Keeps (m >>= f) := fun s =>
  ensures_bind.mpr ((h s).answer fun a t ht => (h' a t).answer fun _ _ hu => hu.trans ht)

theorem accept (wanted : TokenType) : Keeps (accept wanted) := fun _ =>
  ensures_accept (fun _ _ _ _ => rfl) (fun _ _ _ _ => trivial) fun _ => trivial

theorem expect (wanted : TokenType) : Keeps (expect wanted) := (accept wanted).bind fun _ => pure _

theorem require (p : TokenType → Bool) (cause : Token → Cause) : Keeps (require p cause) := by
  intro s
  rw [ensures_require]
  split
  · rfl
  · trivial

theorem requireDeclared : Keeps requireDeclared := by
  intro s
  rw [ensures_requireDeclared]
  split
  · split
    · rfl
    · trivial
  · rfl

theorem checkFactor (operator : TokenType) (t : ValueType) (side : String) (token : Token) :
    Keeps (checkFactor operator t side token) := by
  intro s
  rw [ensures_checkFactor]
  split
  · trivial
  · rfl

/-- Whatever is done with a sum of its own, the sum around it is as before. -/
theorem inFreshChain (m : Analyser α) : Keeps (inFreshChain m) := by
  intro s
  rw [ensures_inFreshChain]
  unfold Ensures
  cases m { s with chain := .fresh } with
  | ok a t => rfl
  | error stop t => trivial

theorem within {m : Analyser α} (h : Keeps m) (p : Production) : Keeps (within p m) := fun s =>
  ensures_within.mpr ((h (s.emit (.begin p.name))).imp (fun _ _ ht => ht) fun _ _ _ => trivial)

end Keeps

end Analyser

/-- Terms and factors leave the sum that is being read as it is. -/
theorem keeps_rule (hf : Keeps (call .factor)) (ht : Keeps (call .term)) :
    Keeps (rule call .factor) ∧ Keeps (rule call .term) := by
  constructor
  · refine .bind .lookahead fun t => ?_
    split
    · exact .bind .requireDeclared fun _ => .bind (.expect _) fun _ => .pure _
    · exact .bind (.expect _) fun _ => .pure _
    · exact .bind (.expect _) fun _ => .bind (.inFreshChain _) fun _ =>
        .bind (.expect _) fun _ => .pure _
    · exact .reject _
  · refine .bind (.require _ _) fun _ => .bind hf fun left => .bind (.lookingAt _) fun seen => ?_
    split
    · exact .bind .lookahead fun _ => .bind (.accept _) fun _ => .bind .lookahead fun _ =>
        .bind (.checkFactor _ _ _ _) fun _ => .bind (.typeOf _) fun _ =>
        .bind (.checkFactor _ _ _ _) fun _ => .bind ht fun _ =>
        .bind (.checkFactor _ _ _ _) fun _ => .pure _
    · exact .pure _

theorem keeps_analyser (limit : Nat) :
    Keeps (analyser limit .factor) ∧ Keeps (analyser limit .term) := by
  induction limit with
  | zero => exact ⟨fun _ => trivial, fun _ => trivial⟩
  | succ limit ih =>
    obtain ⟨hf, ht⟩ := keeps_rule ih.1 ih.2
    exact ⟨hf.within .factor, ht.within .term⟩

/-! ## Statements -/

/-- The second run answers the same type, which is known. -/
abbrev SameType (τ : ValueType) (t : AnalyserState) (τ' : ValueType) (t' : AnalyserState) : Prop :=
  τ' = τ ∧ τ ≠ .unknown ∧ Behind t t'

/-- What a move does whose answer is a type. -/
def Analyser.CutsValue (m : Analyser ValueType) : Prop :=
  ∀ s s', Abreast s s' → Tracks m m SameType s s'

/-- What the productions do in runs that are cut. -/
structure CutParts (call : Callee) : Prop where
  plain : ∀ c, c.production.isValue = false → Cuttable (call c)
  expression : ∀ join, CutsValue (call (.expression join))
  term : CutsValue (call .term)
  factor : CutsValue (call .factor)
  starves : ∀ c, Starves (call c)
  keeps : Keeps (call .factor) ∧ Keeps (call .term)

theorem tracks_declare {v : Variable} (h : Behind s s') (hv : v.type ≠ .unknown) :
    Tracks (declare v) (declare v) (fun _ t _ t' => Behind t t') s s' := by
  intro a t hm
  cases hm
  exact h.imp (·.declare hv) id

/-- An assignment declares a variable of a type that is known. -/
theorem cuttable_assignment (parts : CutParts call) :
    Cuttable (rule call .assignmentStatement) where
  along s s' hs := by
    suffices h : Tracks (rule call .assignmentStatement) (rule call .assignmentStatement)
        (fun _ t _ t' => Behind t t') s s' from
      h.imp fun _ _ _ _ ht => ht.imp (fun ht => ⟨rfl, ht⟩) id
    refine (tracks_accept hs).bind fun target t target' t' ht => ?_
    obtain ⟨rfl, ht | ht⟩ := ht
    · refine (tracks_expect ht).bind fun _ u _ u' hu => ?_
      rcases hu with hu | hu
      · refine Tracks.lookahead hu ?_
        split
        · -- The declared type is that of a number, or that of the expression.
          refine Tracks.bind (R := fun _ r _ r' => Abreast r r') ?_ fun _ r _ r' hr => ?_
          · intro _ r hr
            cases hr
            exact hu.withChain .fresh
          · refine (parts.expression none r r' hr).bind fun τ v τ' v' hv => ?_
            obtain ⟨rfl, known, hv⟩ := hv
            refine tracks_declare hv ?_
            dsimp only
            split
            · decide
            · exact known
        · split
          · exact (tracks_expect hu).bind fun _ _ _ _ hr => tracks_declare hr nofun
          · exact fun _ _ hm => by cases hm
      · -- The second run finds no value.
        refine (starves_lookahead fun first ends => ?_).tracks hu
        simp only [ends, TokenType.startsOperand, Bool.false_eq_true, if_false, reduceCtorEq]
        exact (starves_reject fun _ => rfl).bind
    · -- The target is the last token of the second run.
      exact (starves_expect (by decide)).bind.tracks ht
  lingers := (starves_rule parts.starves .assignmentStatement).lingers

/-- The rules of statements, and of what stands around them. -/
theorem cuttable_rule (parts : CutParts call) (c : Call) (hv : c.production.isValue = false) :
    Cuttable (rule call c) := by
  have plain := parts.plain
  -- The rules are read off move by move.
  cases c with
  | statementPart =>
    exact .bind (.expect (by decide)) fun _ => .bind (plain _ rfl) fun _ => .expect (by decide)
  | statementList =>
    refine .bind (plain _ rfl) fun _ => .lookingAt fun more => ?_
    split
    · refine .bind (.expect (by decide)) fun _ => .lookingAt fun again => ?_
      split
      · exact plain _ rfl
      · exact .pure _
    · exact .pure _
  | statement =>
    refine .lookahead fun t => ?_
    split
    · exact plain _ rfl
    · exact plain _ rfl
    · exact plain _ rfl
    · exact plain _ rfl
    · exact plain _ rfl
    · exact (plain .forStatement rfl).inLoopScope
    · exact .reject fun _ => rfl
  | assignmentStatement => exact cuttable_assignment parts
  | ifStatement =>
    refine .bind (.expect (by decide)) fun _ => .bind (plain _ rfl) fun _ =>
      .bind (.expect (by decide)) fun _ => .bind (plain _ rfl) fun _ => .lookahead fun t => ?_
    split
    · exact .bind (.expect (by decide)) fun _ => .expect (by decide)
    · exact .bind (.expect (by decide)) fun _ => .bind (plain _ rfl) fun _ =>
        .bind (.expect (by decide)) fun _ => .expect (by decide)
    · exact .reject fun _ => rfl
  | whileStatement =>
    exact .bind (.expect (by decide)) fun _ => .bind (plain _ rfl) fun _ =>
      .bind (.expect (by decide)) fun _ => .bind (plain _ rfl) fun _ =>
      .bind (.expect (by decide)) fun _ => .expect (by decide)
  | untilStatement =>
    exact .bind (.expect (by decide)) fun _ => .bind (plain _ rfl) fun _ =>
      .bind (.expect (by decide)) fun _ => plain _ rfl
  | forStatement =>
    exact .bind (.expect (by decide)) fun _ => .bind (.expect (by decide)) fun _ =>
      .bind (plain _ rfl) fun _ => .bind (.expect (by decide)) fun _ =>
      .bind (plain _ rfl) fun _ => .bind (.expect (by decide)) fun _ =>
      .bind (plain _ rfl) fun _ => .bind (.expect (by decide)) fun _ =>
      .bind (.expect (by decide)) fun _ => .bind (plain _ rfl) fun _ =>
      .bind (.expect (by decide)) fun _ => .expect (by decide)
  | procedureStatement =>
    exact .bind (.expect (by decide)) fun _ => .bind (.expect (by decide)) fun _ =>
      .bind (.expect (by decide)) fun _ => .bind (plain _ rfl) fun _ => .expect (by decide)
  | argumentList =>
    refine .bind .requireDeclared fun _ => .bind (.expect (by decide)) fun _ =>
      .lookingAt fun more => ?_
    split
    · exact .bind (.expect (by decide)) fun _ => plain _ rfl
    · exact .pure _
  | condition =>
    refine .bind .requireDeclared fun _ => .bind (.expect (by decide)) fun _ =>
      .bind (plain _ rfl) fun _ => .lookahead fun t => ?_
    split
    · exact .bind .requireDeclared fun _ => .expect (by decide)
    · exact .expect (by decide)
    · exact .expect (by decide)
    · exact .reject fun _ => rfl
  | conditionalOperator =>
    rw [rule, require_bind]
    exact cuttable_acceptSeen rfl (fun _ => .pure _) (.reject fun _ => rfl)
  | expression join | term | factor => cases hv

/-! ## Values -/

/-- A factor has the type of its name, of its literal, or of the sum in its parentheses. -/
theorem cutsValue_factor (parts : CutParts call) : CutsValue (rule call .factor) := by
  intro s s' hs
  refine Tracks.lookahead hs ?_
  split
  · next type_eq =>
    refine (tracks_requireDeclared hs).bind fun τ t τ' t' ht => ?_
    obtain ⟨rfl, rfl, rfl, known⟩ := ht
    exact (tracks_expect hs).bind fun _ _ _ _ hu => tracks_pure ⟨rfl, known type_eq, hu⟩
  · exact (tracks_expect hs).bind fun _ _ _ _ hu => tracks_pure ⟨rfl, nofun, hu⟩
  · refine (tracks_expect hs).bind fun _ t _ t' ht => ?_
    rcases ht with ht | ht
    · have sum := parts.expression none _ _ (ht.withChain .fresh)
      refine (sum.inFreshChain fun τ u τ' u' hu => ?_).bind (R := SameType) fun τ u τ' u' hu => ?_
      · exact ⟨hu.1, hu.2.1, ht.chain_eq ▸ hu.2.2.withChain t.chain⟩
      · obtain ⟨rfl, known, hu | hu⟩ := hu
        · exact (tracks_expect hu).bind fun _ _ _ _ hv => tracks_pure ⟨rfl, known, hv⟩
        · exact (starves_expect (by decide)).bind.tracks hu
    · -- The second run finds no sum behind the parenthesis.
      exact (parts.starves (.expression none)).inFreshChain.bind.tracks ht
  · exact fun _ _ hm => by cases hm

/-- The token behind an operator stands for no string in the second run unless it does in the
first. -/
theorem operandType_of_behind (h : Behind s s')
    (string : operandType s'.scopes s'.lookahead = .string) :
    operandType s.scopes s.lookahead = .string := by
  rcases h with h | h
  · rwa [h.scopes_eq, h.lookahead_eq] at string
  · -- The end of the file stands for nothing.
    have ends : s'.lookahead.type = .endOfFile := h
    rw [operandType, ends] at string
    cases string

/-- A second run that is at the end of the file does not go on. It answers what it has read, and so
does the first, whether it goes on or not. -/
theorem tracks_acceptSeen_of_dry {sort : TokenType → Bool} {f : Token → Analyser ValueType}
    {τ : ValueType} (hs : s'.Dry) (h : sort .endOfFile = false) (known : τ ≠ .unknown)
    (answers : ∀ a u, Ensures (f a) (fun b _ => b = τ) (fun _ _ => True) u) :
    Tracks (acceptSeen sort f (pure τ)) (acceptSeen sort f (pure τ)) SameType s s' := by
  intro b v hb
  have answer : Ensures (acceptSeen sort f (pure τ)) (fun b _ => b = τ) (fun _ _ => True) s := by
    rw [Ensures, acceptSeen_eq]
    by_cases seen : sort s.lookahead.type = true
    · rw [if_pos seen]
      exact ensures_bind_last answers
    · rw [if_neg seen]
      rfl
  obtain rfl : b = τ := answer.of_ok hb
  rw [Ensures, acceptSeen_of_dry hs h]
  exact ⟨rfl, known, .inr hs⟩

/-- A term has the type of its first factor, as far as it is read. -/
theorem cutsValue_term (parts : CutParts call) : CutsValue (rule call .term) := by
  intro s s' hs
  refine (tracks_require hs).bind fun _ r _ r' hr => (parts.factor r r' hr).bind
    fun left t left' t' ht => ?_
  obtain ⟨rfl, known, ht | ht⟩ := ht
  · refine tracks_acceptSeen ht (fun operator u u' hu => ?_) (tracks_pure ⟨rfl, known, .inl ht⟩)
    -- What the first run passes of the checks before the next term, the second passes too.
    refine tracks_lookahead.bind fun _ _ _ _ looked => ?_
    obtain ⟨⟨rfl, rfl⟩, rfl, rfl⟩ := looked
    refine (tracks_checkFactor id).bind fun _ _ _ _ checked => ?_
    obtain ⟨rfl, rfl⟩ := checked
    refine tracks_typeOf.bind fun _ _ _ _ typed => ?_
    obtain ⟨⟨rfl, rfl⟩, rfl, rfl⟩ := typed
    refine (tracks_checkFactor (operandType_of_behind hu)).bind fun _ _ _ _ checked => ?_
    obtain ⟨rfl, rfl⟩ := checked
    rcases hu with hu | hu
    · refine (parts.term _ _ hu).bind fun right v right' v' hv => ?_
      obtain ⟨rfl, -, hv⟩ := hv
      refine (tracks_checkFactor id).bind fun _ _ _ _ checked => ?_
      obtain ⟨rfl, rfl⟩ := checked
      exact tracks_pure ⟨rfl, nofun, hv⟩
    · exact (parts.starves .term).bind.tracks hu
  · -- If the first run goes on, the factor is no string, and so it is a number like the term.
    refine tracks_acceptSeen_of_dry ht rfl known fun operator u =>
      ensures_bind_last fun operand r => ?_
    rw [ensures_bind, ensures_checkFactor]
    split
    · trivial
    · next other =>
      have number : ValueType.number = left' := by
        cases left' with
        | number => rfl
        | string => exact absurd rfl other
        | unknown => exact absurd rfl known
      exact ensures_bind_last fun _ _ => ensures_bind_last fun _ _ => ensures_bind_last fun _ _ =>
        ensures_bind_last fun _ _ => number

/-- What two runs of a move keep that leaves the sum as it is. -/
theorem Analyser.Tracks.keeping {m : Analyser α} {R : α → AnalyserState → α → AnalyserState → Prop}
    (h : Tracks m m R s s') (keeps : Keeps m) :
    Tracks m m (fun a t a' t' => R a t a' t' ∧ t.chain = s.chain ∧ t'.chain = s'.chain) s s' := by
  intro a t hm
  have first := (keeps s).of_ok hm
  have second := keeps s'
  have both := h a t hm
  cases hm' : m s' with
  | ok a' t' =>
    simp only [Ensures, hm'] at second both ⊢
    exact ⟨both, first, second⟩
  | error stop t' =>
    simp only [Ensures, hm'] at both ⊢
    exact both

/-- An expression has the type of its first term, as far as it is read. -/
theorem cutsValue_expression (parts : CutParts call) (join : Option Join) :
    CutsValue (rule call (.expression join)) := by
  intro s s' hs
  have entered : Tracks beginTerm beginTerm (fun _ t _ t' => Abreast t t') s s' := by
    intro a t hm
    cases hm
    rw [ensures_beginTerm, hs.chain_eq]
    exact hs.withChain _
  refine entered.bind fun _ r _ r' hr => (tracks_require hr).bind fun _ q _ q' hq =>
    ((parts.term q q' hq).keeping parts.keeps.2).bind fun τ t τ' t' ht => ?_
  obtain ⟨⟨rfl, known, ht⟩, chain, chain'⟩ := ht
  have alike : t'.chain = t.chain := by rw [chain, chain', hq.chain_eq]
  have recorded : Tracks (recordTerm τ') (recordTerm τ')
      (fun _ u _ u' => Behind u u' ∧ u'.chain = u.chain) t t' := by
    intro a u hm
    cases hm
    rw [ensures_recordTerm, alike]
    exact ⟨ht.withChain _, rfl⟩
  -- The sums are alike, so that the terms fit in both runs.
  refine recorded.bind fun _ u _ u' hu => (tracks_checkSum hu.2).bind fun _ _ _ _ checked => ?_
  obtain ⟨rfl, rfl⟩ := checked
  obtain ⟨hu | hu, -⟩ := hu
  · refine tracks_acceptSeen hu (fun operator v v' hv => ?_) (tracks_pure ⟨rfl, known, .inl hu⟩)
    rcases hv with hv | hv
    · exact .lookahead hv ((parts.expression _ v v' hv).bind fun _ _ _ _ hw =>
        tracks_pure ⟨rfl, known, hw.2.2⟩)
    · exact (starves_lookahead fun _ _ => (parts.starves _).bind).tracks hv
  · exact tracks_acceptSeen_of_dry hu rfl known fun _ _ => ensures_bind_last fun _ _ =>
      ensures_bind_last fun _ _ => rfl

/-! ## Productions -/

/-- What the productions do in runs that are cut, under every limit. -/
theorem cutParts_analyser (limit : Nat) : CutParts (analyser limit) := by
  induction limit with
  | zero =>
    -- Under this limit no production answers, so there is nothing that the second run has to pass.
    have tooDeep {α : Type} : Cuttable (throw .tooDeep : Analyser α) :=
      ⟨fun _ _ _ _ _ hm => (nomatch hm), fun _ _ => noMismatch_tooDeep⟩
    exact {
      plain := fun c _ => tooDeep
      expression := fun _ _ _ _ _ _ hm => nomatch hm
      term := fun _ _ _ _ _ hm => nomatch hm
      factor := fun _ _ _ _ _ hm => nomatch hm
      starves := starves_analyser 0
      keeps := keeps_analyser 0 }
  | succ limit ih =>
    have within {m : Analyser ValueType} (h : CutsValue m) (p : Production) :
        CutsValue (within p m) := fun s s' hs =>
      (h _ _ (hs.emit _)).within p fun _ _ _ _ ht => ⟨ht.1, ht.2.1, ht.2.2.emit _⟩
    exact {
      plain := fun c hv => (cuttable_rule ih c hv).within c.production
      expression := fun join => within (cutsValue_expression ih join) .expression
      term := within (cutsValue_term ih) .term
      factor := within (cutsValue_factor ih) .factor
      starves := starves_analyser (limit + 1)
      keeps := keeps_analyser (limit + 1) }

end BlockLang
