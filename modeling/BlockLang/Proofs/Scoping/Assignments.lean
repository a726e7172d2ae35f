import BlockLang.Proofs.Reading.Leaves
import BlockLang.Proofs.Scoping.Moments

/-!
# Where declarations and uses come from

Every entry of a trace was told for a reason. An identifier that stands for a value was checked
right before it was accepted, in scopes that hold what the trace so far declares. A variable was
added by an assignment: its target was accepted before, and what came in between was the value,
which declares nothing and all of whose identifiers have the type of the variable.

## Main definitions

* `AssignedBy outer target inside v`: an assignment to the target added the variable
* `Event.Explained V before e`: the entry was told for a reason, where declarations are asked for in
  the states of `V`
* `Analyser.Explains V limit p m`: the move tells only what can be explained

## Main results

* `Assembled.explains`: what rules are made of tells only what can be explained
* `explained_analyseWithin`: so does every analysis
-/

namespace BlockLang

open Analyser

/-- The variable was added by an assignment to the target, which was accepted behind `outer`. Since
then the value was told, whose identifiers have the type of the variable. -/
structure AssignedBy (outer : List Event) (target : Token) (inside : List Event) (v : Variable) :
    Prop where
  name_eq : v.identifier = target.value
  position_eq : v.position = target.position
  known : v.type ≠ .unknown
  aside : ∀ p : Production, p.reads → p.name ∉ openProductions outer
  quiet : ∀ e ∈ inside, e.Quiet
  operands : ∀ t ∈ accepted inside, t.type = .identifier →
    ∃ x, (replay .empty outer).lookup t.value = some x ∧ x.type = v.type

/-- The entry, told behind others, was told for a reason. -/
def Event.Explained (V : AnalyserState → Prop) (before : List Event) : Event → Prop
  | .terminal t => t.type = .identifier →
    (∃ p : Production, p.reads ∧ p.name ∈ openProductions before) →
    (∃ u, V u ∧ u.lookahead = t ∧ u.trace = before) ∧
      ∃ v, (replay .empty before).lookup t.value = some v
  | .add v => ∃ outer target inside, before = outer ++ .terminal target :: inside ∧
    AssignedBy outer target inside v
  | _ => True

/-- Every entry of the trace was told for a reason. -/
def AllExplained (V : AnalyserState → Prop) (events : List Event) : Prop :=
  ∀ before e after, events = before ++ e :: after → e.Explained V before

variable {V : AnalyserState → Prop} {α : Type} {m : Analyser α} {s t : AnalyserState}
  {p : Production} {limit : Nat} {fs events : List Event} {e : Event}
  {δ : Declarations}

namespace AllExplained

theorem nil : AllExplained V [] := fun before e after split => by simp at split

/-- One more entry. -/
theorem concat (h : AllExplained V events) (he : e.Explained V events) :
    AllExplained V (events ++ [e]) :=
  forall_split_concat.mpr ⟨h, he⟩

/-- Entries that need no reason. -/
theorem append (h : AllExplained V events) (hf : ∀ e ∈ fs, e.kind ≠ .terminal ∧ e.kind ≠ .add) :
    AllExplained V (events ++ fs) := by
  induction fs using List.reverseRecOn with
  | nil => rwa [List.append_nil]
  | append_singleton fs e ih =>
    rw [← List.append_assoc]
    refine (ih fun e he => hf e (List.mem_append_left _ he)).concat ?_
    obtain ⟨token, addition⟩ := hf e (by simp)
    cases e with
    | terminal t => exact absurd rfl token
    | add v => exact absurd rfl addition
    | begin _ | finish _ | remove _ | error _ _ => trivial

/-- Variables that are added have known types. -/
theorem known (h : AllExplained V events) : (replay .empty events).Known := by
  induction events using List.reverseRecOn with
  | nil => exact Declarations.known_empty
  | append_singleton events e ih =>
    have so_far : (replay .empty events).Known :=
      ih fun before e' after split => h before e' (after ++ [e]) (by simp [split])
    rw [replay_append, replay_cons, replay_nil]
    cases e with
    | add v =>
      obtain ⟨outer, target, inside, -, assigned⟩ := h events (.add v) [] rfl
      exact so_far.declare assigned.known
    | begin q =>
      rw [Declarations.record]
      split
      · exact so_far.enter
      · exact so_far
    | finish q =>
      rw [Declarations.record]
      split
      · exact so_far.leave
      · exact so_far
    | terminal _ | remove _ | error _ _ => exact so_far

end AllExplained

/-! ## Moves -/

/-- An identifier that is taken in a rule without asking for its declaration stands for no value. -/
theorem Between.explained_terminal {token : Token} (h : Between p s)
    (proper : p.readsOnly → token.type ≠ .identifier) :
    (Event.terminal token).Explained V s.trace := by
  rintro identifier ⟨q, reads, opened⟩
  exact absurd identifier (proper (h.around.inside q reads (List.mem_reverse.mp opened)))

/-- The move, made between moves of the rule of `p`, tells only what can be explained, if it asks for
declarations in states of `V`. -/
def Analyser.Explains (V : AnalyserState → Prop) (limit : Nat) (p : Production) (m : Analyser α) :
    Prop :=
  ∀ s, Between p s → (∀ u, Checks limit p m s u → V u) → AllExplained V s.trace →
    Ensures m (fun _ t => AllExplained V t.trace) (fun _ t => AllExplained V t.trace) s

/-- The rules of productions under a limit tell only what can be explained. -/
def ExplainingParts (V : AnalyserState → Prop) : Nat → Prop
  | 0 => True
  | limit + 1 => ∀ c, Explains V limit c.production (rule (analyser limit) c)

namespace Analyser

theorem explained_rejectAt {token : Token} {cause : Cause} {Q : α → AnalyserState → Prop}
    (h : AllExplained V s.trace) :
    Ensures (rejectAt token cause) Q (fun _ t => AllExplained V t.trace) s := by
  refine ensures_rejectAt.mpr ?_
  rw [AnalyserState.trace_emit]
  exact h.append (by simp [Event.kind])

/-- A token that may be accepted is taken. -/
theorem explained_accept {wanted : TokenType} (h : AllExplained V s.trace)
    (reason : s.lookahead.type = wanted → (Event.terminal s.lookahead).Explained V s.trace) :
    Ensures (accept wanted)
      (fun a t => a.type = wanted ∧ t.trace = s.trace ++ [.terminal a] ∧ t.scopes = s.scopes ∧
        AllExplained V t.trace)
      (fun _ t => AllExplained V t.trace) s := by
  refine ensures_accept (fun next input ht _ => ?_) (fun e input ht _ => ?_) fun _ => ?_
  · have told : (s.advance next input).trace = s.trace ++ [.terminal s.lookahead] :=
      AnalyserState.trace_advance ..
    exact ⟨ht, told, rfl, told ▸ h.concat (reason ht)⟩
  · change AllExplained V (s.emit (.terminal s.lookahead)).trace
    rw [AnalyserState.trace_emit]
    exact h.concat (reason ht)
  · exact explained_rejectAt h

theorem explained_expect {wanted : TokenType} (h : AllExplained V s.trace)
    (reason : s.lookahead.type = wanted → (Event.terminal s.lookahead).Explained V s.trace) :
    Ensures (expect wanted)
      (fun _ t => ∃ a : Token, a.type = wanted ∧ t.trace = s.trace ++ [.terminal a] ∧
        t.scopes = s.scopes ∧ AllExplained V t.trace)
      (fun _ t => AllExplained V t.trace) s :=
  ensures_expect.mpr ((explained_accept h reason).answer fun a _ ht => ⟨a, ht⟩)

/-- An identifier that is declared is taken. -/
theorem explains_use {f : ValueType → Analyser α} (hf : ∀ a, Explains V limit p (f a)) :
    Explains V limit p (requireDeclared >>= fun a => expect .identifier >>= fun _ => f a) := by
  intro s hs watched h
  -- If the lookahead is declared, the check has just found its declaration.
  have reason (v : Variable) (hv : s.scopes.lookup s.lookahead.value = some v) :
      (Event.terminal s.lookahead).Explained V s.trace := by
    intro _ _
    refine ⟨⟨s, watched s (.use s), rfl, rfl⟩, v, ?_⟩
    rw [← Declarations.lookup_scopes, ← hs.scopes_eq, hv]
  refine ensures_bind_of (P := fun _ t => t = s ∧
    (s.lookahead.type = .identifier → (Event.terminal s.lookahead).Explained V s.trace)) ?_ ?_
  · refine ensures_requireDeclared.mpr ?_
    split
    · split
      · next v hv => exact ⟨rfl, fun _ => reason v hv⟩
      · exact explained_rejectAt h
    · next other => exact ⟨rfl, fun identifier => absurd identifier other⟩
  · rintro a t check ⟨rfl, he⟩
    refine ensures_bind_of (explained_expect h he) fun _ u take ht => ?_
    obtain ⟨token, -, told, scopes, ht⟩ := ht
    exact hf a u (hs.terminal scopes told) (fun w hw => watched w (.used check take hw)) ht

/-- A production tells only what can be explained. -/
theorem explained_analyser (parts : ExplainingParts V limit) (c : Call)
    (begun : Between c.production (s.emit (.begin c.production.name)))
    (watched : ∀ k, limit = k + 1 → ∀ u, Checks k c.production (rule (analyser k) c)
      (s.emit (.begin c.production.name)) u → V u) (h : AllExplained V s.trace) :
    Ensures (analyser limit c) (fun _ t => AllExplained V t.trace)
      (fun _ t => AllExplained V t.trace) s := by
  cases limit with
  | zero => exact h
  | succ limit =>
    have inside : AllExplained V (s.emit (.begin c.production.name)).trace := by
      rw [AnalyserState.trace_emit]
      exact h.append (by simp [Event.kind])
    rw [analyser_succ]
    -- Where a production begins and ends needs no reason, nor does what it says of a stop.
    refine ensures_within.mpr ((parts c _ begun (watched limit rfl) inside).imp (fun a t ht => ?_)
      fun stop t ht => ?_)
    · rw [AnalyserState.trace_emit]
      exact ht.append (by simp [Event.kind])
    · rw [AnalyserState.trace_abandon]
      refine ht.append ?_
      cases stop <;> simp [Stop.farewell, Event.kind]

/-- A part of a rule that is no loop tells only what can be explained. -/
theorem explains_part (parts : ExplainingParts V limit) (c : Call)
    (plain : c.production ≠ .forStatement)
    (proper : p.readsOnly = false ∨ c.production.readsOnly) :
    Explains V limit p (analyser limit c) := by
  intro s hs watched h
  refine explained_analyser parts c (hs.begin plain proper) (fun k succ u hu => ?_) h
  subst succ
  exact watched u (.part plain proper hu)

/-- A loop tells only what can be explained. -/
theorem explains_loop (parts : ExplainingParts V limit) (outside : p.readsOnly = false) :
    Explains V limit p (inLoopScope (analyser limit .forStatement)) := by
  intro s hs watched h
  have inner : ∀ k, limit = k + 1 → ∀ u, Checks k .forStatement (rule (analyser k) .forStatement)
      ((enterLoop s).emit (.begin Production.forStatement.name)) u → V u := by
    rintro k rfl u hu
    exact watched u (.loop outside hu)
  refine ensures_inLoopScope.mpr ((explained_analyser (s := enterLoop s) parts .forStatement
    (hs.beginLoop outside) inner h).imp (fun _ t ht => ?_) fun _ _ => id)
  -- What a scope drops when it is closed needs no reason.
  obtain ⟨removed, told⟩ := t.trace_leaveLoop
  rw [told]
  exact ht.append (by simp [Event.kind])

end Analyser

/-- What rules are made of tells only what can be explained, where nothing is declared. -/
theorem Assembled.explains (h : Assembled (analyser limit) p m) (parts : ExplainingParts V limit)
    (other : p ≠ .assignmentStatement) : Explains V limit p m := by
  induction h with
  | pure | lookahead | lookingAt | typeOf | beginChain | beginTerm | recordTerm =>
    exact fun s _ _ h => h
  | bind hm _ ihm ihf =>
    intro s hs watched h
    have both := hm.between (tellingParts_analyser limit) hs
    refine ensures_bind_of (ihm s hs (fun u hu => watched u (.first hu)) h) fun a t run ht => ?_
    exact ihf a t (both.of_ok run) (fun u hu => watched u (.next hm run hu)) ht
  | accept wanted proper =>
    intro s hs _ h
    refine (explained_accept h fun ht => ?_).answer fun _ _ ht => ht.2.2.2
    exact hs.explained_terminal fun inside => ht ▸ proper inside
  | @acceptSeen _ sort _ _ proper _ _ ihf ihg =>
    intro s hs watched h
    refine ensures_bind.mpr (ensures_lookingAt.mpr ?_)
    cases seen : sort s.lookahead.type with
    | false =>
      refine ihg s hs (fun u hu => watched u (.next (.lookingAt sort) rfl ?_)) h
      rw [seen]
      exact hu
    | true =>
      -- A token of this sort is no identifier.
      have named : s.lookahead.type ≠ .identifier := by
        intro identifier
        rw [identifier, proper] at seen
        cases seen
      refine ensures_bind.mpr (ensures_lookahead.mpr ?_)
      refine ensures_bind_of (explained_accept h fun _ => hs.explained_terminal fun _ => named)
        fun a t run ht => ?_
      refine ihf a t (hs.terminal ht.2.2.1 ht.2.1)
        (fun u hu => watched u (.next (.lookingAt sort) rfl ?_)) ht.2.2.2
      rw [seen]
      exact .next .lookahead rfl (.next (.accept _ fun _ => named) run hu)
  | use _ _ ihf => exact explains_use ihf
  | refuse => exact fun s _ _ h => ensures_reject.mpr (explained_rejectAt h)
  | mismatch => exact fun s _ _ h => explained_rejectAt h
  | declare v assignment => exact absurd assignment other
  | checkSum join =>
    intro s _ _ h
    refine ensures_checkSum.mpr ?_
    split
    · exact explained_rejectAt h
    · exact h
  | inFreshChain _ ih =>
    intro s hs watched h
    have inner := ih { s with chain := .fresh } (hs.congr rfl rfl)
      (fun u hu => watched u (.inFreshChain hu)) h
    exact ensures_inFreshChain.mpr inner
  | part c plain proper => exact explains_part parts c plain proper
  | loop outside => exact explains_loop parts outside

/-! ## Assignments -/

section

variable {τ : ValueType} {target sign : Token} {inside : List Event}

/-- A variable is added behind a target, a sign and a value. -/
theorem Between.explained_declare (hs : Between .assignmentStatement s)
    (hsign : sign.type = .colonEqual)
    (told : t.trace = s.trace ++ [.terminal target] ++ [.terminal sign] ++ inside)
    (known : τ ≠ .unknown) (quiet : ∀ e ∈ inside, e.Quiet)
    (operands : ∀ u ∈ accepted inside, u.type = .identifier →
      ∃ x, (replay .empty s.trace).lookup u.value = some x ∧ x.type = τ)
    (h : AllExplained V t.trace) :
    AllExplained V (t.emit (.add ⟨target.value, τ, target.position⟩)).trace := by
  rw [AnalyserState.trace_emit]
  refine h.concat ⟨s.trace, target, .terminal sign :: inside, by simp [told], rfl, rfl, known,
    fun q reads opened => ?_, ?_, fun u hu identifier => ?_⟩
  · cases hs.around.inside q reads (List.mem_reverse.mp opened)
  · exact List.forall_mem_cons.mpr ⟨by simp [Event.Quiet, Event.kind], quiet⟩
  · rw [accepted_terminal_cons, List.mem_cons] at hu
    rcases hu with rfl | hu
    · cases hsign.symm.trans identifier
    · exact operands u hu identifier

/-- A value that was read in an assignment: the entries since then, and its type. -/
theorem exists_value
    (run : analyser limit (.expression none) s = .ok τ t) (fresh : s.chain = .fresh)
    (scopes_eq : s.scopes = δ.scopes) (known : δ.Known) :
    ∃ inside, t.trace = s.trace ++ inside ∧ (∀ e ∈ inside, e.Quiet) ∧ τ ≠ .unknown ∧
      (s.lookahead.type = .numberLiteral → τ = .number) ∧
      ∀ u ∈ accepted inside, u.type = .identifier →
        ∃ x, δ.lookup u.value = some x ∧ x.type = τ := by
  obtain ⟨inside, told, quiet⟩ := (tellsQuietly_analyser limit (.expression none) rfl s).of_ok run
  obtain ⟨w, nonempty, passes, taken, typed⟩ := exists_hasType_of_read run fresh scopes_eq known
  obtain rfl : accepted inside = w := by
    have both : s.accepted ++ accepted inside = s.accepted ++ w := by
      rw [← taken, AnalyserState.accepted, AnalyserState.accepted, told, accepted_append]
    exact List.append_cancel_left both
  refine ⟨inside, told, quiet, ?_, fun number => ?_, fun u hu identifier => ?_⟩
  · rcases typed.known with rfl | rfl <;> decide
  · -- The value begins with the number.
    obtain ⟨first, rest, split⟩ := List.exists_cons_of_ne_nil nonempty
    rw [split] at passes typed
    have begins : s.lookahead = first := passes.1
    have has := typed.operands first List.mem_cons_self (by rw [← begins, number]; rfl)
    rw [Declarations.typeOf, ← begins, number] at has
    exact (Option.some.inj has).symm
  · have has := typed.operands u hu (by rw [identifier]; rfl)
    rw [Declarations.typeOf, identifier] at has
    exact Option.map_eq_some_iff.mp has

/-- An assignment of what an operand begins tells only what can be explained. -/
theorem explained_operand (parts : ExplainingParts V limit) (hs : Between .assignmentStatement s)
    (hsign : sign.type = .colonEqual)
    (told : t.trace = s.trace ++ [.terminal target] ++ [.terminal sign])
    (scopes : t.scopes = s.scopes) (h : AllExplained V t.trace)
    (watched : ∀ u, Checks limit .assignmentStatement (analyser limit (.expression none))
      { t with chain := .fresh } u → V u) :
    Ensures (analyser limit (.expression none))
      (fun τ u => AllExplained V (u.emit (.add ⟨target.value,
        if t.lookahead.type = .numberLiteral then .number else τ, target.position⟩)).trace)
      (fun _ u => AllExplained V u.trace) { t with chain := .fresh } := by
  have same : replay .empty t.trace = replay .empty s.trace := by
    rw [told]
    simp [Declarations.record]
  have ht : Between .assignmentStatement t :=
    (hs.terminal (t := s.emit (.terminal target)) rfl (AnalyserState.trace_emit ..)).terminal
      scopes (by rw [told, AnalyserState.trace_emit])
  refine (explains_part parts (.expression none) (by decide) (.inl rfl) { t with chain := .fresh }
    (ht.congr rfl rfl) watched h).answer_of_run fun τ u run hu => ?_
  obtain ⟨value, grown, quiet, known, number, operands⟩ :=
    exists_value run rfl ht.scopes_eq h.known
  -- What begins with a number is one anyway.
  have type_eq : (if t.lookahead.type = .numberLiteral then .number else τ) = τ := by
    split
    · next numeric => exact (number numeric).symm
    · rfl
  rw [type_eq]
  rw [same] at operands
  exact hs.explained_declare hsign (grown.trans (by rw [← told]; rfl)) known quiet operands hu

end

/-- An assignment tells only what can be explained. -/
theorem explains_assignment (parts : ExplainingParts V limit) :
    Explains V limit .assignmentStatement (rule (analyser limit) .assignmentStatement) := by
  intro s hs watched h
  have inert (wanted : TokenType) (inside : Production.assignmentStatement.readsOnly) :
      wanted ≠ .identifier := by cases inside
  refine ensures_bind_of (explained_accept h fun _ => hs.explained_terminal (inert _))
    fun target s₁ run₁ ht => ?_
  obtain ⟨-, told₁, scopes₁, h₁⟩ := ht
  have hs₁ := hs.terminal scopes₁ told₁
  refine ensures_bind_of (explained_expect h₁ fun _ => hs₁.explained_terminal (inert _))
    fun _ s₂ run₂ ht => ?_
  obtain ⟨sign, hsign, told₂, scopes₂, h₂⟩ := ht
  have hs₂ := hs₁.terminal scopes₂ told₂
  have watched := fun u hu => watched u (.next (.accept _ (inert _)) run₁
    (.next (.expect _ (inert _)) run₂ (.next (s := s₂) .lookahead rfl hu)))
  rw [told₁] at told₂
  refine ensures_bind.mpr (ensures_lookahead.mpr ?_)
  dsimp only at watched ⊢
  split at watched
  · next operand =>
    rw [if_pos operand]
    refine ensures_bind.mpr (ensures_beginChain.mpr (ensures_bind.mpr ?_))
    refine (explained_operand parts hs hsign told₂ (scopes₂.trans scopes₁) h₂ fun u hu =>
      watched u (.next .beginChain rfl (.first hu))).answer fun τ t ht => ?_
    exact ensures_bind.mpr ((ensures_pure _).mpr (ensures_declare.mpr ht))
  · next other =>
    rw [if_neg other]
    split at watched
    · next isString =>
      rw [if_pos isString]
      refine ensures_bind.mpr ((explained_expect h₂ fun _ =>
        hs₂.explained_terminal (inert _)).answer fun _ t ht => ?_)
      obtain ⟨literal, isLiteral, told, -, ht⟩ := ht
      rw [told₂] at told
      refine ensures_bind.mpr ((ensures_pure _).mpr (ensures_declare.mpr ?_))
      refine hs.explained_declare hsign told (by decide) (by simp [Event.Quiet, Event.kind])
        (fun u hu identifier => ?_) ht
      obtain rfl : u = literal := by simpa using hu
      cases isLiteral.symm.trans identifier
    · next invalid =>
      rw [if_neg invalid]
      exact ensures_bind.mpr (ensures_reject.mpr (explained_rejectAt h₂))

/-! ## Analyses -/

/-- The rules of all productions tell only what can be explained, under every limit. -/
theorem explainingParts (limit : Nat) : ExplainingParts V limit := by
  induction limit with
  | zero => trivial
  | succ limit ih =>
    intro c
    by_cases assignment : c.production = .assignmentStatement
    · obtain rfl : c = .assignmentStatement := by
        cases c <;> first | rfl | cases assignment
      exact explains_assignment ih
    · exact (assembled_rule (analyser limit) c).explains ih assignment

/-- Every analysis tells only what can be explained. -/
theorem explained_analyseWithin (limit : Nat) {stream input : TokenStream} {first : Token}
    (pulled : stream.pull = (.ok first, input)) :
    AllExplained (Checks limit .statementPart (program limit) (.start first input))
      (analyseWithin limit stream).events.toList := by
  have explains := (assembled_program limit).explains (explainingParts limit) nofun _
    (.start first input) (fun _ => id) .nil
  rw [analyseWithin_of_pull pulled]
  cases hr : program limit (.start first input) with
  | ok a t => exact explains.of_ok hr
  | error stop t => exact explains.of_error hr

end BlockLang
