import BlockLang.Proofs.Reading.Leaves

/-!
# Known types

A name whose type is not known never comes into an analysis: no scope holds one at any moment, the
trace adds and removes none, and whatever stands for a value answers a type that is known. So a
value that begins with a number constant is a number, and an assignment takes the type of its value
as it is read.

## Main definitions

* `Scopes.Typed`, `AnalyserState.Typed`: all variables have known types
* `Analyser.Step limit m`: the move is one that a rule goes on from
* `Analyser.Makes n u limit m s`: in the run of `m` from `s`, the move `n` is made in the state `u`
* `plainAssignment call`: the rule of an assignment that takes the type of its value as it is read

## Main results

* `typed_analyser`: every production keeps types known, and answers one that is known
* `number_of_expression`: what begins with a number constant is a number
* `typed_of_makes`: types are known at every moment of a run
-/

namespace BlockLang

open Analyser

variable {α β : Type} {limit k : Nat} {p : Production} {c : Call} {call : Callee}
  {s t u : AnalyserState} {τ : ValueType} {es : List Event}

/-- The type is that of a number or a string. -/
def ValueType.Known (τ : ValueType) : Prop := τ = .number ∨ τ = .string

/-! ## Scopes and traces -/

namespace Scopes

variable {scopes : Scopes}

/-- Every variable in the global scope and in the open loops has a known type. -/
def Typed (scopes : Scopes) : Prop :=
  ∀ table ∈ scopes.globals :: scopes.loops, ∀ v ∈ table.values, v.type.Known

theorem typed_empty : empty.Typed := by simp [Typed, empty, Dictionary.empty, Dictionary.values]

theorem Typed.enter (h : scopes.Typed) : scopes.enter.Typed := by
  simpa [Typed, Scopes.enter, Dictionary.empty, Dictionary.values] using h

theorem Typed.declare (h : scopes.Typed) (name : String) {v : Variable} (hv : v.type.Known) :
    (scopes.declare name v).Typed := by
  have insert {table : Table} (ht : ∀ x ∈ table.values, x.type.Known) :
      ∀ x ∈ (table.insert name v).values, x.type.Known := fun x hx =>
    (Dictionary.mem_values_insert hx).elim (fun same => same ▸ hv) (ht x)
  obtain ⟨globals, loops⟩ := scopes
  cases loops with
  | nil =>
    simp only [Typed, Scopes.declare, List.mem_singleton, forall_eq] at h ⊢
    exact insert h
  | cons table outer =>
    simp only [Typed, Scopes.declare, List.mem_cons, forall_eq_or_imp] at h ⊢
    exact ⟨h.1, insert h.2.1, h.2.2⟩

/-- What a loop scope gives when it is closed, and what is left. -/
theorem Typed.leave (h : scopes.Typed) {removed : List Variable} {left : Scopes}
    (hl : scopes.leave? = some (removed, left)) :
    (∀ v ∈ removed, v.type.Known) ∧ left.Typed := by
  obtain ⟨globals, loops⟩ := scopes
  cases loops with
  | nil => cases hl
  | cons table outer =>
    cases hl
    simp only [Typed, List.mem_cons, forall_eq_or_imp] at h ⊢
    exact ⟨h.2.1, h.1, h.2.2⟩

theorem Typed.restore (h : scopes.Typed) (n : Nat) : (scopes.restore n).Typed := by
  intro table ht
  refine h table ?_
  rcases List.mem_cons.mp ht with rfl | ht
  · exact List.mem_cons_self
  · exact List.mem_cons_of_mem _ (List.mem_of_mem_drop ht)

/-- A name that stands for something has a type that is known. -/
theorem Typed.lookup (h : scopes.Typed) {name : String} {v : Variable}
    (hv : scopes.lookup name = some v) : v.type.Known := by
  have found {table : Table} (ht : table ∈ scopes.globals :: scopes.loops)
      (hf : table.find? name = some v) : v.type.Known :=
    h table ht v (List.mem_map_of_mem (f := Prod.snd) (Dictionary.mem_of_findEntry_eq_some hf))
  have inLoops (loops : List Table) (sub : ∀ table ∈ loops, table ∈ scopes.loops)
      (hl : lookupLoops name loops = some v) : v.type.Known := by
    induction loops with
    | nil => cases hl
    | cons table outer ih =>
      rcases Option.or_eq_some_iff.mp hl with hl | ⟨-, hf⟩
      · exact ih (fun t ht => sub t (List.mem_cons_of_mem _ ht)) hl
      · exact found (List.mem_cons_of_mem _ (sub table List.mem_cons_self)) hf
  rcases Option.or_eq_some_iff.mp hv with hl | ⟨-, hf⟩
  · exact inLoops scopes.loops (fun _ => id) hl
  · exact found List.mem_cons_self hf

end Scopes

/-- A variable that the entry adds or removes has a known type. -/
def Event.Typed : Event → Prop
  | .add v | .remove v => v.type.Known
  | _ => True

/-- All variables have known types, in the scopes and in the trace so far. -/
structure AnalyserState.Typed (s : AnalyserState) : Prop where
  scopes : s.scopes.Typed
  told : ∀ e ∈ s.trace, e.Typed

namespace AnalyserState.Typed

theorem start (first : Token) (input : TokenStream) :
    (AnalyserState.start first input).Typed :=
  ⟨Scopes.typed_empty, by simp [AnalyserState.trace, AnalyserState.start]⟩

/-- The scopes are as before, and more was told. -/
theorem tell (h : s.Typed) (hs : t.scopes = s.scopes) (ht : t.trace = s.trace ++ es)
    (hes : ∀ e ∈ es, e.Typed) : t.Typed := by
  refine ⟨hs ▸ h.scopes, fun e he => ?_⟩
  rw [ht, List.mem_append] at he
  exact he.elim (h.told e) (hes e)

theorem congr (h : s.Typed) (hs : t.scopes = s.scopes) (ht : t.trace = s.trace) : t.Typed :=
  ⟨hs ▸ h.scopes, fun e he => h.told e (ht ▸ he)⟩

theorem emit (h : s.Typed) {e : Event} (he : e.Typed) : (s.emit e).Typed :=
  h.tell rfl (s.trace_emit e) (by simpa using he)

theorem abandon (h : s.Typed) (name : String) (stop : Stop) : (s.abandon name stop).Typed :=
  h.tell rfl (s.trace_abandon name stop) (by cases stop <;> simp [Stop.farewell, Event.Typed])

theorem enterLoop (h : s.Typed) : (enterLoop s).Typed := ⟨h.scopes.enter, h.told⟩

theorem leaveLoop (h : s.Typed) : (leaveLoop s).Typed := by
  unfold Analyser.leaveLoop
  dsimp only
  split
  · exact h
  · next removed left hl =>
    obtain ⟨gone, rest⟩ := h.scopes.leave hl
    have told : s.trace ++ removed.map .remove =
        (s.events ++ removed.map Event.remove).toList := by simp [AnalyserState.trace]
    refine ⟨rest, fun e he => ?_⟩
    simp only [AnalyserState.trace, AnalyserState.notify, tellAll_array, ← told] at he
    rcases List.mem_append.mp he with he | he
    · exact h.told e he
    · obtain ⟨v, hv, rfl⟩ := List.mem_map.mp he
      exact gone v hv

end AnalyserState.Typed

/-! ## Moves -/

namespace Analyser

variable {m body : Analyser α} {f : α → Analyser β}

/-- The move keeps types known, however it ends. -/
def KeepsTypes (m : Analyser α) : Prop :=
  ∀ s : AnalyserState, s.Typed → Ensures m (fun _ t => t.Typed) (fun _ t => t.Typed) s

theorem KeepsTypes.of_same (h : ∀ s : AnalyserState,
    Ensures m (fun _ t => t.scopes = s.scopes ∧ t.trace = s.trace) (fun _ _ => False) s) :
    KeepsTypes m := fun s hs =>
  (h s).imp (fun _ _ same => hs.congr same.1 same.2) fun _ _ => False.elim

theorem KeepsTypes.bind (hm : KeepsTypes m) (hf : ∀ a, KeepsTypes (f a)) :
    KeepsTypes (m >>= f) := fun s hs =>
  ensures_bind.mpr ((hm s hs).answer fun a t ht => hf a t ht)

theorem keepsTypes_pure (a : α) : KeepsTypes (pure a : Analyser α) := fun _ hs => hs

theorem keepsTypes_rejectAt (token : Token) (cause : Cause) :
    KeepsTypes (rejectAt token cause : Analyser α) := fun _ hs => hs.emit trivial

theorem keepsTypes_accept (wanted : TokenType) : KeepsTypes (accept wanted) := by
  intro s hs
  have told : (s.emit (.terminal s.lookahead)).Typed := hs.emit trivial
  exact ensures_accept (fun _ _ _ _ => told.congr rfl rfl) (fun _ _ _ _ => told.congr rfl rfl)
    fun _ => keepsTypes_rejectAt _ _ s hs

theorem keepsTypes_expect (wanted : TokenType) : KeepsTypes (expect wanted) :=
  (keepsTypes_accept wanted).bind fun _ => keepsTypes_pure ()

theorem keepsTypes_require (sort : TokenType → Bool) (cause : Token → Cause) :
    KeepsTypes (require sort cause) := by
  intro s hs
  refine ensures_require.mpr ?_
  split
  · exact hs
  · exact keepsTypes_rejectAt _ _ s hs

theorem keepsTypes_requireDeclared : KeepsTypes requireDeclared := by
  intro s hs
  refine ensures_requireDeclared.mpr ?_
  split
  · split
    · exact hs
    · exact keepsTypes_rejectAt _ _ s hs
  · exact hs

theorem keepsTypes_checkSum (join : Option Join) : KeepsTypes (checkSum join) := by
  intro s hs
  refine ensures_checkSum.mpr ?_
  split
  · exact keepsTypes_rejectAt _ _ s hs
  · exact hs

theorem keepsTypes_checkFactor (operator : TokenType) (τ : ValueType) (side : String)
    (token : Token) : KeepsTypes (checkFactor operator τ side token) := by
  intro s hs
  refine ensures_checkFactor.mpr ?_
  split
  · exact keepsTypes_rejectAt _ _ s hs
  · exact hs

theorem KeepsTypes.inFreshChain (h : KeepsTypes body) : KeepsTypes (inFreshChain body) :=
  fun s hs => ensures_inFreshChain.mpr ((h { s with chain := .fresh } (hs.congr rfl rfl)).imp
    (fun _ _ ht => ht.congr rfl rfl) fun _ _ ht => ht.congr rfl rfl)

theorem KeepsTypes.inLoopScope (h : KeepsTypes body) : KeepsTypes (inLoopScope body) :=
  fun s hs => ensures_inLoopScope.mpr ((h (enterLoop s) hs.enterLoop).imp
    (fun _ _ ht => ht.leaveLoop) fun _ _ ht => ⟨ht.scopes.restore _, ht.told⟩)

end Analyser

/-- What rules are made of keeps types known, where nothing is declared. -/
theorem Assembled.keepsTypes {m : Analyser α} (h : Assembled call p m)
    (parts : ∀ c, KeepsTypes (call c)) (other : p ≠ .assignmentStatement) : KeepsTypes m := by
  induction h with
  | pure | lookahead | lookingAt | typeOf | beginChain | beginTerm | recordTerm =>
    exact .of_same fun s => ⟨rfl, rfl⟩
  | bind _ _ ihm ihf => exact ihm.bind ihf
  | accept wanted _ => exact keepsTypes_accept wanted
  | acceptSeen _ _ _ ihf ihg =>
    refine .bind (.of_same fun s => ⟨rfl, rfl⟩) fun seen => ?_
    cases seen
    · exact ihg
    · exact .bind (.of_same fun s => ⟨rfl, rfl⟩) fun t => (keepsTypes_accept _).bind ihf
  | use _ _ ihf =>
    exact keepsTypes_requireDeclared.bind fun τ => (keepsTypes_expect _).bind fun _ => ihf τ
  | refuse _ => exact fun s hs => ensures_reject.mpr (keepsTypes_rejectAt _ _ s hs)
  | mismatch token m => exact keepsTypes_rejectAt token _
  | declare v assignment => exact absurd assignment other
  | checkSum join => exact keepsTypes_checkSum join
  | inFreshChain _ ih => exact ih.inFreshChain
  | part c _ _ => exact parts c
  | loop _ => exact (parts .forStatement).inLoopScope

/-! ## Values -/

namespace Analyser

variable {P : α → Prop} {Q : β → Prop} {m : Analyser α} {f : α → Analyser β}

/-- The move keeps types known, and its answer is as `P` says. -/
def Answers (P : α → Prop) (m : Analyser α) : Prop :=
  ∀ s : AnalyserState, s.Typed → Ensures m (fun a t => P a ∧ t.Typed) (fun _ t => t.Typed) s

theorem Answers.keepsTypes (h : Answers P m) : KeepsTypes m := fun s hs =>
  (h s hs).answer fun _ _ => And.right

theorem Answers.imp {P' : α → Prop} (h : Answers P m) (hP : ∀ a, P a → P' a) : Answers P' m :=
  fun s hs => (h s hs).answer fun a _ ht => ⟨hP a ht.1, ht.2⟩

/-- Nothing is asked of the answer. -/
theorem KeepsTypes.answers (h : KeepsTypes m) (hP : ∀ a, P a) : Answers P m := fun s hs =>
  (h s hs).answer fun a _ ht => ⟨hP a, ht⟩

theorem Answers.within (h : Answers P m) (p : Production) : Answers P (within p m) := fun s hs =>
  ensures_within.mpr ((h (s.emit (.begin p.name)) (hs.emit trivial)).imp
    (fun _ _ ht => ⟨ht.1, ht.2.emit trivial⟩) fun stop _ ht => ht.abandon p.name stop)

theorem answers_pure {a : α} (h : P a) : Answers P (pure a : Analyser α) := fun _ hs => ⟨h, hs⟩

theorem Answers.bind (hm : Answers P m) (hf : ∀ a, P a → Answers Q (f a)) :
    Answers Q (m >>= f) := fun s hs =>
  ensures_bind.mpr ((hm s hs).answer fun a t ht => hf a ht.1 t ht.2)

/-- Of two moves in turn, the answer of the first may not count. -/
theorem KeepsTypes.before (hm : KeepsTypes m) (hf : ∀ a, Answers Q (f a)) :
    Answers Q (m >>= f) := fun s hs =>
  ensures_bind.mpr ((hm s hs).answer fun a t ht => hf a t ht)

theorem Answers.keeping {f : α → Analyser β} (hm : Answers P m) (hf : ∀ a, P a → KeepsTypes (f a)) :
    KeepsTypes (m >>= f) := fun s hs =>
  ensures_bind.mpr ((hm s hs).answer fun a t ht => hf a ht.1 t ht.2)

theorem Answers.inFreshChain (h : Answers P m) : Answers P (inFreshChain m) :=
  fun s hs => ensures_inFreshChain.mpr ((h { s with chain := .fresh } (hs.congr rfl rfl)).imp
    (fun _ _ ht => ⟨ht.1, ht.2.congr rfl rfl⟩) fun _ _ ht => ht.congr rfl rfl)

theorem answers_reject (cause : Token → Cause) : Answers P (reject cause : Analyser α) :=
  fun s hs => ensures_reject.mpr (hs.emit (e := .error s.lookahead _) trivial)

theorem keepsTypes_looking : KeepsTypes lookahead := .of_same fun _ => ⟨rfl, rfl⟩

theorem keepsTypes_declare {v : Variable} (h : v.type.Known) : KeepsTypes (declare v) :=
  fun s hs => AnalyserState.Typed.emit (s := { s with scopes := s.scopes.declare v.identifier v })
    ⟨hs.scopes.declare _ h, hs.told⟩ h

end Analyser

/-- The type that an answer tells, if it tells one, is as `P` says. -/
def Call.Tells (P : ValueType → Prop) (c : Call) (a : c.Result) : Prop :=
  ∀ τ ∈ c.valueType? a, P τ

theorem Call.tells_iff {P : ValueType → Prop} {a : c.Result} (h : c.valueType? a = some τ) :
    c.Tells P a ↔ P τ := by
  simp [Tells, h]

/-- The productions keep types known, and answer types that are known. -/
def TypedParts (call : Callee) : Prop := ∀ c : Call, Answers (c.Tells ValueType.Known) (call c)

section

variable (parts : TypedParts call)
include parts

/-- An assignment declares a variable of a known type. -/
theorem keepsTypes_assignment : KeepsTypes (rule call .assignmentStatement) := by
  refine (keepsTypes_accept _).bind fun target => (keepsTypes_expect _).bind fun _ =>
    keepsTypes_looking.bind fun first => ?_
  have declares (τ : ValueType) (known : τ.Known) :
      KeepsTypes (declare ⟨target.value, τ, target.position⟩) := keepsTypes_declare known
  split
  · refine KeepsTypes.bind (.of_same fun _ => ⟨rfl, rfl⟩) fun _ =>
      (parts (.expression none)).keeping fun τ known => (answers_pure ?_).keeping declares
    split
    · exact .inl rfl
    · exact known τ rfl
  · split
    · exact (keepsTypes_expect _).bind fun _ => (answers_pure (.inr rfl)).keeping declares
    · exact (answers_reject _).keeping declares

/-- A factor answers a type that is known. -/
theorem answers_factor : Answers ValueType.Known (rule call .factor) := by
  intro s hs
  refine ensures_bind.mpr (ensures_lookahead.mpr ?_)
  split
  · next identifier =>
    refine ensures_bind.mpr (ensures_requireDeclared.mpr ?_)
    rw [if_pos identifier]
    split
    · next v hv =>
      exact (keepsTypes_expect _).before (fun _ => answers_pure (hs.scopes.lookup hv)) s hs
    · exact ensures_rejectAt.mpr (hs.emit trivial)
  · exact (keepsTypes_expect _).before (fun _ => answers_pure (.inl rfl)) s hs
  · exact (keepsTypes_expect _).before (fun _ => (parts (.expression none)).inFreshChain.bind
      fun τ known => (keepsTypes_expect _).before fun _ => answers_pure (known τ rfl)) s hs
  · exact answers_reject _ s hs

/-- A term answers a type that is known: that of its first factor, or a number. -/
theorem answers_term : Answers ValueType.Known (rule call .term) := by
  refine (keepsTypes_require _ _).before fun _ => (parts .factor).bind fun left known =>
    KeepsTypes.before (.of_same fun _ => ⟨rfl, rfl⟩) fun more => ?_
  split
  · exact keepsTypes_looking.before fun _ => (keepsTypes_accept _).before fun _ =>
      keepsTypes_looking.before fun _ => (keepsTypes_checkFactor _ _ _ _).before fun _ =>
      KeepsTypes.before (.of_same fun _ => ⟨rfl, rfl⟩) fun _ =>
      (keepsTypes_checkFactor _ _ _ _).before fun _ => (parts .term).keepsTypes.before fun _ =>
      (keepsTypes_checkFactor _ _ _ _).before fun _ => answers_pure (.inl rfl)
  · exact answers_pure (known left rfl)

/-- A sum answers the type of its first term. -/
theorem answers_expression (join : Option Join) :
    Answers ValueType.Known (rule call (.expression join)) := by
  refine KeepsTypes.before (.of_same fun _ => ⟨rfl, rfl⟩) fun _ =>
    (keepsTypes_require _ _).before fun _ => (parts .term).bind fun τ known =>
    KeepsTypes.before (.of_same fun _ => ⟨rfl, rfl⟩) fun _ =>
    (keepsTypes_checkSum _).before fun _ =>
    KeepsTypes.before (.of_same fun _ => ⟨rfl, rfl⟩) fun more => ?_
  split
  · exact keepsTypes_looking.before fun _ => (keepsTypes_accept _).before fun _ =>
      keepsTypes_looking.before fun _ => (parts (.expression _)).keepsTypes.before fun _ =>
      answers_pure (known τ rfl)
  · exact answers_pure (known τ rfl)

/-- The rule of a production keeps types known, and answers one that is known. -/
theorem typed_rule : TypedParts (rule call) := by
  intro c
  have other (plain : c.production ≠ .assignmentStatement) : KeepsTypes (rule call c) :=
    (assembled_rule call c).keepsTypes (fun c => (parts c).keepsTypes) plain
  cases c with
  | expression join =>
    exact (answers_expression parts join).imp fun _ => (Call.tells_iff rfl).mpr
  | term => exact (answers_term parts).imp fun _ => (Call.tells_iff rfl).mpr
  | factor => exact (answers_factor parts).imp fun _ => (Call.tells_iff rfl).mpr
  | assignmentStatement => exact (keepsTypes_assignment parts).answers nofun
  | _ => exact (other nofun).answers nofun

end

/-- Every production keeps types known, and answers one that is known, under every limit. -/
theorem typed_analyser (limit : Nat) : TypedParts (analyser limit) := by
  induction limit with
  | zero => exact fun c s hs => hs
  | succ limit ih => exact fun c => (typed_rule ih c).within c.production

/-! ## Number constants -/

/-- What begins with a number constant is a number. -/
def NumbersFirst (call : Callee) : Prop :=
  ∀ (c : Call) (s : AnalyserState), s.lookahead.type = .numberLiteral →
    Ensures (call c) (fun a _ => c.Tells (· = .number) a) (fun _ _ => True) s

section

variable (parts : NumbersFirst call) (number : s.lookahead.type = .numberLiteral)
include number

theorem number_factor :
    Ensures (rule call .factor) (fun τ _ => τ = .number) (fun _ _ => True) s := by
  refine ensures_bind.mpr (ensures_lookahead.mpr ?_)
  rw [number]
  exact ensures_bind_last fun _ _ => rfl

include parts

theorem number_term : Ensures (rule call .term) (fun τ _ => τ = .number) (fun _ _ => True) s := by
  refine ensures_bind.mpr (ensures_require.mpr ?_)
  rw [if_pos (by rw [number]; rfl)]
  refine ensures_bind.mpr ((parts .factor s number).answer fun left t known => ?_)
  refine ensures_bind_last fun more t => ?_
  split
  · exact ensures_bind_last fun _ _ => ensures_bind_last fun _ _ => ensures_bind_last fun _ _ =>
      ensures_bind_last fun _ _ => ensures_bind_last fun _ _ => ensures_bind_last fun _ _ =>
      ensures_bind_last fun _ _ => ensures_bind_last fun _ _ => rfl
  · exact known left rfl

theorem number_expression (join : Option Join) :
    Ensures (rule call (.expression join)) (fun τ _ => τ = .number) (fun _ _ => True) s := by
  refine ensures_bind.mpr (ensures_beginTerm.mpr (ensures_bind.mpr (ensures_require.mpr ?_)))
  rw [if_pos (by rw [number]; rfl)]
  have first := parts .term { s with chain := s.chain.enter } number
  refine ensures_bind.mpr (first.answer fun τ t known => ?_)
  refine ensures_bind_last fun _ _ => ensures_bind_last fun _ _ =>
    ensures_bind_last fun more _ => ?_
  split
  · exact ensures_bind_last fun _ _ => ensures_bind_last fun _ _ => ensures_bind_last fun _ _ =>
      ensures_bind_last fun _ _ => known τ rfl
  · exact known τ rfl

end

/-- A value that begins with a number constant is a number, under every limit. -/
theorem numbersFirst_analyser (limit : Nat) : NumbersFirst (analyser limit) := by
  -- What is no value answers no type.
  have silent {c : Call} {m : Analyser c.Result} {s : AnalyserState}
      (h : ∀ a, c.valueType? a = none) :
      Ensures m (fun a _ => c.Tells (· = .number) a) (fun _ _ => True) s := by
    unfold Ensures
    split
    · simp [Call.Tells, h]
    · trivial
  induction limit with
  | zero => exact fun c s _ => trivial
  | succ limit ih =>
    intro c s number
    rw [analyser_succ, ensures_within]
    have begun : (s.emit (.begin c.production.name)).lookahead.type = .numberLiteral := number
    cases c with
    | expression join =>
      exact (number_expression ih begun join).answer fun τ _ =>
        (Call.tells_iff (P := (· = .number)) (c := .expression join) (a := τ) rfl).mpr
    | term =>
      exact (number_term ih begun).answer fun τ _ =>
        (Call.tells_iff (P := (· = .number)) (c := .term) (a := τ) rfl).mpr
    | factor =>
      exact (number_factor begun).answer fun τ _ =>
        (Call.tells_iff (P := (· = .number)) (c := .factor) (a := τ) rfl).mpr
    | _ => exact silent fun _ => rfl

theorem number_of_expression {join : Option Join} (number : s.lookahead.type = .numberLiteral)
    (run : analyser limit (.expression join) s = .ok τ t) : τ = .number :=
  (numbersFirst_analyser limit (.expression join) s number).of_ok run τ rfl

/-- The rule of an assignment that takes the type of its value as it is read. -/
def plainAssignment (call : Callee) : Analyser Unit := do
  let target ← accept .identifier
  expect .colonEqual
  let first ← lookahead
  let type ←
    if first.type.startsOperand then do
      beginChain
      call (.expression none)
    else if first.type = .stringLiteral then do
      expect .stringLiteral
      pure .string
    else reject .invalid
  declare ⟨target.value, type, target.position⟩

/-- An assignment takes the type of its value as it is read. -/
theorem rule_assignment_eq (limit : Nat) :
    rule (analyser limit) .assignmentStatement = plainAssignment (analyser limit) := by
  refine congrArg (accept .identifier >>= ·) (funext fun target => ?_)
  refine congrArg (expect .colonEqual >>= ·) (funext fun _ => funext fun s => ?_)
  have opened (f : Token → Analyser Unit) : (lookahead >>= f) s = f s.lookahead s := rfl
  rw [opened, opened]
  by_cases operand : s.lookahead.type.startsOperand
  · rw [if_pos operand, if_pos operand]
    change (analyser limit (.expression none) >>= _) { s with chain := .fresh } =
      (analyser limit (.expression none) >>= _) { s with chain := .fresh }
    cases run : analyser limit (.expression none) { s with chain := .fresh } with
    | error stop t => rw [bind_of_error run, bind_of_error run]
    | ok τ t =>
      rw [bind_of_ok run, bind_of_ok run]
      by_cases number : s.lookahead.type = .numberLiteral
      · -- What begins with a number is one anyway.
        obtain rfl := number_of_expression (s := { s with chain := .fresh }) number run
        rw [ite_self, pure_bind]
      · rw [if_neg number, pure_bind]
  · rw [if_neg operand, if_neg operand]

/-! ## Moments of a run -/

/-- The move is one that a rule goes on from, its parts being analysed under a limit. -/
inductive Analyser.Step (limit : Nat) : {α : Type} → Analyser α → Prop
  | pure {α : Type} (a : α) : Step limit (Pure.pure a : Analyser α)
  | lookahead : Step limit lookahead
  | lookingAt (sort : TokenType → Bool) : Step limit (lookingAt sort)
  | typeOf (token : Token) : Step limit (typeOf token)
  | accept (wanted : TokenType) : Step limit (accept wanted)
  | expect (wanted : TokenType) : Step limit (expect wanted)
  | require (sort : TokenType → Bool) (cause : Token → Cause) : Step limit (require sort cause)
  | reject {α : Type} (cause : Token → Cause) : Step limit (reject cause : Analyser α)
  | requireDeclared : Step limit requireDeclared
  | beginChain : Step limit beginChain
  | beginTerm : Step limit beginTerm
  | recordTerm (τ : ValueType) : Step limit (recordTerm τ)
  | checkSum (join : Option Join) : Step limit (checkSum join)
  | checkFactor (operator : TokenType) (τ : ValueType) (side : String) (token : Token) :
      Step limit (checkFactor operator τ side token)
  | call (c : Call) : Step limit (analyser limit c)
  | inFreshChain (c : Call) : Step limit (inFreshChain (analyser limit c))
  | inLoopScope (c : Call) : Step limit (inLoopScope (analyser limit c))

/-- In the run of a move from the state `s`, the move `n` is made in the state `u`. A rule makes its
steps in turn, and within a step that is a production it makes those of the rule of that. -/
inductive Analyser.Makes {β : Type} (n : Analyser β) (u : AnalyserState) :
    Nat → {α : Type} → Analyser α → AnalyserState → Prop
  | here {limit : Nat} : Makes n u limit n u
  | first {limit : Nat} {α γ : Type} {m : Analyser α} {f : α → Analyser γ} {s : AnalyserState}
      (step : Step limit m) (inside : Makes n u limit m s) : Makes n u limit (m >>= f) s
  | next {limit : Nat} {α γ : Type} {m : Analyser α} {f : α → Analyser γ} {a : α}
      {s t : AnalyserState} (step : Step limit m) (run : m s = .ok a t)
      (rest : Makes n u limit (f a) t) : Makes n u limit (m >>= f) s
  | inFreshChain {limit : Nat} {c : Call} {s : AnalyserState}
      (inside : Makes n u limit (analyser limit c) { s with chain := .fresh }) :
      Makes n u limit (inFreshChain (analyser limit c)) s
  | inLoopScope {limit : Nat} {c : Call} {s : AnalyserState}
      (inside : Makes n u limit (analyser limit c) (enterLoop s)) :
      Makes n u limit (inLoopScope (analyser limit c)) s
  | production {limit : Nat} {c : Call} {s : AnalyserState}
      (inside : Makes n u limit (rule (analyser limit) c) (s.emit (.begin c.production.name))) :
      Makes n u (limit + 1) (analyser (limit + 1) c) s

/-- What a rule goes on from keeps types known. -/
theorem Analyser.Step.keepsTypes {m : Analyser α} (h : Step limit m) : KeepsTypes m := by
  cases h with
  | pure | lookahead | lookingAt | typeOf | beginChain | beginTerm | recordTerm =>
    exact .of_same fun s => ⟨rfl, rfl⟩
  | accept wanted => exact keepsTypes_accept wanted
  | expect wanted => exact keepsTypes_expect wanted
  | require sort cause => exact keepsTypes_require sort cause
  | reject cause => exact (answers_reject (P := fun _ => True) cause).keepsTypes
  | requireDeclared => exact keepsTypes_requireDeclared
  | checkSum join => exact keepsTypes_checkSum join
  | checkFactor operator τ side token => exact keepsTypes_checkFactor operator τ side token
  | call c => exact (typed_analyser limit c).keepsTypes
  | inFreshChain c => exact (typed_analyser limit c).keepsTypes.inFreshChain
  | inLoopScope c => exact (typed_analyser limit c).keepsTypes.inLoopScope

/-- Types are known in every state that a run comes to, if they are where it starts and ends. -/
theorem typed_of_makes {m : Analyser α} {n : Analyser β} (h : Makes n u limit m s) (hs : s.Typed)
    (ends : (endState (m s)).Typed) : u.Typed ∧ (endState (n u)).Typed := by
  induction h with
  | here => exact ⟨hs, ends⟩
  | first step _ ih => exact ih hs (step.keepsTypes _ hs).endState
  | next step run _ ih =>
    refine ih ((step.keepsTypes _ hs).of_ok run) ?_
    rwa [bind_of_ok run] at ends
  | @inFreshChain limit c s _ ih =>
    have fresh : ({ s with chain := .fresh } : AnalyserState).Typed := hs.congr rfl rfl
    exact ih fresh ((typed_analyser limit c).keepsTypes _ fresh).endState
  | @inLoopScope limit c s _ ih =>
    exact ih hs.enterLoop ((typed_analyser limit c).keepsTypes _ hs.enterLoop).endState
  | @production limit c s _ ih =>
    have begun : (s.emit (.begin c.production.name)).Typed := hs.emit trivial
    exact ih begun ((typed_rule (typed_analyser limit) c).keepsTypes _ begun).endState

/-- Types are known throughout every analysis. They are at every moment of its run, and at its end;
the trace adds and removes no variable of an unknown type, and every expression, term and factor
that is read answers a type that is known. What begins with a number constant is a number, so
nothing changes when an assignment takes the type of its value as it is read. -/
theorem types_are_known (limit : Nat) (stream : TokenStream) :
    (analyseWithin limit stream).scopes.Typed ∧
      (∀ e ∈ (analyseWithin limit stream).events.toList, e.Typed) ∧
      (∀ first input, stream.pull = (.ok first, input) →
        (∀ (β : Type) (n : Analyser β) (u : AnalyserState),
          Makes n u limit (program limit) (.start first input) →
            u.Typed ∧ (endState (n u)).Typed) ∧
        ∀ (k : Nat) (c : Call) (u t : AnalyserState) (a : c.Result),
          Makes (analyser k c) u limit (program limit) (.start first input) →
            analyser k c u = .ok a t → c.Tells ValueType.Known a) ∧
      (∀ (k : Nat) (join : Option Join) (s t : AnalyserState) (τ : ValueType),
        s.lookahead.type = .numberLiteral → analyser k (.expression join) s = .ok τ t →
          τ = .number) ∧
      ∀ k, rule (analyser k) .assignmentStatement = plainAssignment (analyser k) := by
  have keeps : KeepsTypes (program limit) :=
    (typed_analyser limit .statementPart).keepsTypes.bind fun _ => keepsTypes_require _ _
  have ends (first : Token) (input : TokenStream) :=
    (keeps _ (AnalyserState.Typed.start first input)).endState
  have left : (analyseWithin limit stream).scopes.Typed ∧
      ∀ e ∈ (analyseWithin limit stream).events.toList, e.Typed := by
    rcases hp : stream.pull with ⟨e | first, input⟩
    · rw [analyseWithin_of_error hp]
      exact ⟨Scopes.typed_empty, by simp [Analysis.unlexed]⟩
    · rw [analyseWithin_of_pull hp]
      have typed := ends first input
      cases run : program limit (.start first input) with
      | ok a t | error stop t =>
        rw [run] at typed
        exact ⟨typed.scopes, typed.told⟩
  refine ⟨left.1, left.2, fun first input _ => ⟨fun β n u made => ?_, fun k c u t a made run => ?_⟩,
    fun k join s t τ number run => number_of_expression number run, rule_assignment_eq⟩
  · exact typed_of_makes made (.start first input) (ends first input)
  · obtain ⟨typed, -⟩ := typed_of_makes made (.start first input) (ends first input)
    exact ((typed_analyser k c u typed).of_ok run).1

/-- `begin x := 1 + 2 end`, a program that declares a sum of number constants. -/
def declaringSum : TokenStream :=
  .ofList [.ok ⟨.beginKeyword, "begin", ⟨1, 1⟩⟩, .ok ⟨.identifier, "x", ⟨1, 7⟩⟩,
    .ok ⟨.colonEqual, ":=", ⟨1, 9⟩⟩, .ok ⟨.numberLiteral, "1", ⟨1, 12⟩⟩, .ok ⟨.plus, "+", ⟨1, 14⟩⟩,
    .ok ⟨.numberLiteral, "2", ⟨1, 16⟩⟩, .ok ⟨.endKeyword, "end", ⟨1, 18⟩⟩,
    .ok ⟨.endOfFile, "", ⟨1, 21⟩⟩]

/-- The state in which the analysis of `declaringSum` begins to read the value of `x`. -/
def beforeSum : AnalyserState where
  lookahead := ⟨.numberLiteral, "1", ⟨1, 12⟩⟩
  input := ⟨declaringSum.items.drop 4, ⟨1, 21⟩⟩
  scopes := .empty
  chain := .fresh
  events := #[.begin "StatementPart", .terminal ⟨.beginKeyword, "begin", ⟨1, 1⟩⟩,
    .begin "StatementList", .begin "Statement", .begin "AssignmentStatement",
    .terminal ⟨.identifier, "x", ⟨1, 7⟩⟩, .terminal ⟨.colonEqual, ":=", ⟨1, 9⟩⟩]
  notices := #[]

theorem types_are_known_declaringSum :
    ∃ first input τ t, declaringSum.pull = (.ok first, input) ∧
      Makes (analyser 6 (.expression none)) beforeSum 10 (program 10) (.start first input) ∧
      beforeSum.lookahead.type = .numberLiteral ∧ beforeSum.Typed ∧
      analyser 6 (.expression none) beforeSum = .ok τ t ∧ τ = .number := by
  obtain ⟨-, -, moments, numbers, -⟩ := types_are_known 10 declaringSum
  have pulled : declaringSum.pull =
      (.ok ⟨.beginKeyword, "begin", ⟨1, 1⟩⟩, ⟨declaringSum.items.tail, ⟨1, 21⟩⟩) := rfl
  have made : Makes (analyser 6 (.expression none)) beforeSum 10 (program 10)
      (.start ⟨.beginKeyword, "begin", ⟨1, 1⟩⟩ ⟨declaringSum.items.tail, ⟨1, 21⟩⟩) := by
    refine .first (.call .statementPart) (.production (.next (.expect .beginKeyword) rfl ?_))
    refine .first (.call .statementList) (.production (.first (.call .statement) ?_))
    refine .production (.next .lookahead rfl ?_)
    refine .production (.next (.accept .identifier) rfl (.next (.expect .colonEqual) rfl ?_))
    refine .next .lookahead rfl (?_ : Makes _ _ 6 (beginChain >>= _) _)
    exact .next .beginChain rfl (.first (.call (.expression none)) .here)
  have run : ∃ τ t, analyser 6 (.expression none) beforeSum = .ok τ t := ⟨_, _, rfl⟩
  obtain ⟨τ, t, run⟩ := run
  exact ⟨_, _, τ, t, pulled, made, rfl, ((moments _ _ pulled).1 _ _ _ made).1, run,
    numbers 6 none beforeSum t τ rfl run⟩

end BlockLang
