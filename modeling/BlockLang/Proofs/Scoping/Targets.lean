import BlockLang.Proofs.Scoping.Atomic
import BlockLang.Proofs.Scoping.Outside

/-!
# Targets of declarations

Only assignments declare variables. An assignment takes its target and, right behind it, its sign;
its value declares nothing; and then the target is declared. So every variable that a trace adds has
its name and position from an identifier that was taken, with the sign of an assignment right behind
it, and no other variable was added since. If the tokens that were taken stand one behind the other,
then so do the variables, although each is added only behind its value.

## Main definitions

* `Targets target sign value v`: what an assignment took and told before it declared the variable
* `AllTargeted events`: every variable that the trace adds is the target of an assignment

## Main results

* `targeted_analyseWithin`: every variable that an analysis adds is the target of an assignment
* `AllTargeted.exists_target`: it has its name and position from a token in front of a sign
* `AllTargeted.pairwise_declared`: variables stand in the order in which they are added
-/

namespace BlockLang

open Analyser

variable {α β : Type} {m body : Analyser α} {f : α → Analyser β} {s : AnalyserState}
  {p : Production} {limit : Nat} {events es : List Event} {v : Variable}

/-- An assignment took its target and its sign, and told of its value without adding a variable; its
target is the one of the variable. -/
structure Targets (target sign : Token) (value : List Event) (v : Variable) : Prop where
  identifier : target.type = .identifier
  colonEqual : sign.type = .colonEqual
  name_eq : v.identifier = target.value
  position_eq : v.position = target.position
  adds_none : ∀ e ∈ value, e.kind ≠ .add

/-- If the entry, told behind others, adds a variable, then this is the target of an assignment,
whose value was told last. -/
def Event.Targeted (before : List Event) : Event → Prop
  | .add v => ∃ outer target sign value,
    before = outer ++ .terminal target :: .terminal sign :: value ∧ Targets target sign value v
  | _ => True

/-- Every variable that the trace adds is the target of an assignment. -/
def AllTargeted (events : List Event) : Prop :=
  ∀ before e after, events = before ++ e :: after → e.Targeted before

namespace AllTargeted

theorem nil : AllTargeted [] := fun before e after split => by simp at split

/-- Entries that add no variable. -/
theorem append (h : AllTargeted events) (none : ∀ e ∈ es, e.kind ≠ .add) :
    AllTargeted (events ++ es) := by
  induction es using List.reverseRecOn with
  | nil => rwa [List.append_nil]
  | append_singleton es e ih =>
    rw [← List.append_assoc]
    refine forall_split_concat.mpr ⟨ih fun e he => none e (List.mem_append_left _ he), ?_⟩
    have other := none e (by simp)
    cases e with
    | add v => exact absurd rfl other
    | begin _ | finish _ | terminal _ | remove _ | error _ _ => trivial

end AllTargeted

/-! ## Moves -/

namespace Analyser

/-- However the move ends, every variable that the trace adds is the target of an assignment. -/
def KeepsTargets (m : Analyser α) : Prop :=
  ∀ s, AllTargeted s.trace →
    Ensures m (fun _ t => AllTargeted t.trace) (fun _ t => AllTargeted t.trace) s

/-- A move that leaves all variables alone adds none. -/
theorem SparesVariables.keepsTargets (hm : SparesVariables m) : KeepsTargets m := by
  intro s h
  have kept {t : AnalyserState} (untouched : s.Untouched t) : AllTargeted t.trace := by
    obtain ⟨es, told, silent⟩ := untouched.told
    exact told ▸ h.append fun e he => (silent e he).1
  exact (hm s).imp (fun _ _ => kept) fun _ _ => kept

theorem KeepsTargets.bind (hm : KeepsTargets m) (hf : ∀ a, KeepsTargets (f a)) :
    KeepsTargets (m >>= f) := fun s h =>
  ensures_bind.mpr ((hm s h).answer fun a t ht => hf a t ht)

theorem KeepsTargets.inFreshChain (h : KeepsTargets body) : KeepsTargets (inFreshChain body) :=
  fun s hs => ensures_inFreshChain.mpr (h { s with chain := .fresh } hs)

/-- The end of a loop adds nothing. -/
theorem KeepsTargets.inLoopScope (h : KeepsTargets body) : KeepsTargets (inLoopScope body) := by
  intro s hs
  refine ensures_inLoopScope.mpr ((h (enterLoop s) hs).imp (fun _ t ht => ?_) fun _ _ => id)
  obtain ⟨removed, told⟩ := t.trace_leaveLoop
  rw [told]
  exact ht.append (by simp [Event.kind])

/-- The begin and the end of a production add nothing, also when it is left by a stop. -/
theorem KeepsTargets.within (h : KeepsTargets body) (p : Production) :
    KeepsTargets (within p body) := by
  intro s hs
  have began : AllTargeted (s.emit (.begin p.name)).trace := by
    rw [AnalyserState.trace_emit]
    exact hs.append (by simp [Event.kind])
  refine ensures_within.mpr ((h _ began).imp (fun _ t ht => ?_) fun stop t ht => ?_)
  · rw [AnalyserState.trace_emit]
    exact ht.append (by simp [Event.kind])
  · rw [AnalyserState.trace_abandon]
    refine ht.append ?_
    cases stop <;> simp [Stop.farewell, Event.kind]

/-- The rule of an assignment adds its target, behind the sign and the value. -/
theorem keepsTargets_assignment (limit : Nat) :
    KeepsTargets (rule (analyser limit) .assignmentStatement) := by
  intro s h
  refine ensures_bind_of ((sparesVariables_accept .identifier).keepsTargets s h)
    fun target t take ht => ?_
  refine ensures_bind_of ((sparesVariables_expect .colonEqual).keepsTargets t ht)
    fun _ u takeSign hu => ?_
  obtain ⟨identifier, rfl, next, input, -, rfl⟩ := accept_eq_ok_iff.mp take
  obtain ⟨sign, r, takeSign, same⟩ := bind_eq_ok_iff.mp takeSign
  obtain ⟨colonEqual, rfl, next, input, -, rfl⟩ := accept_eq_ok_iff.mp takeSign
  cases same
  refine (declaresLast_value limit s.lookahead _).imp (fun _ r hr => ?_) fun _ r hr => ?_
  · obtain ⟨τ, -, value, added, silent⟩ := hr
    have before := hu.append fun e he => (silent e he).1
    rw [added]
    exact forall_split_concat.mpr ⟨before, s.trace, s.lookahead, _, value, by simp,
      identifier, colonEqual, rfl, rfl, fun e he => (silent e he).1⟩
  · obtain ⟨es, told, silent⟩ := hr.told
    exact told ▸ hu.append fun e he => (silent e he).1

end Analyser

/-- What rules are made of adds only targets of assignments, where nothing is declared. -/
theorem Assembled.keepsTargets {call : Callee} (h : Assembled call p m)
    (parts : ∀ c, KeepsTargets (call c)) (other : p ≠ .assignmentStatement) : KeepsTargets m := by
  induction h with
  | pure | lookahead | lookingAt | typeOf | beginChain | beginTerm | recordTerm =>
    exact fun _ h => h
  | bind _ _ ihm ihf => exact ihm.bind ihf
  | accept wanted _ => exact (sparesVariables_accept wanted).keepsTargets
  | acceptSeen _ _ _ ihf ihg =>
    refine KeepsTargets.bind (fun _ h => h) fun seen => ?_
    cases seen
    · exact ihg
    · exact sparesVariables_lookahead.keepsTargets.bind fun t =>
        (sparesVariables_accept _).keepsTargets.bind ihf
  | use _ _ ihf =>
    exact sparesVariables_requireDeclared.keepsTargets.bind fun t =>
      (sparesVariables_expect .identifier).keepsTargets.bind fun _ => ihf t
  | refuse => exact (sparesVariables_reject _).keepsTargets
  | mismatch token m => exact (sparesVariables_rejectAt token _).keepsTargets
  | declare v assignment => exact absurd assignment other
  | checkSum join => exact (sparesVariables_checkSum join).keepsTargets
  | inFreshChain _ ih => exact ih.inFreshChain
  | part c _ _ => exact parts c
  | loop _ => exact (parts .forStatement).inLoopScope

/-! ## Runs -/

/-- Every production adds only targets of assignments, under every limit. -/
theorem keepsTargets_analyser (limit : Nat) (c : Call) : KeepsTargets (analyser limit c) := by
  induction limit generalizing c with
  | zero => exact fun _ h => h
  | succ limit ih =>
    refine KeepsTargets.within ?_ c.production
    by_cases assignment : c.production = .assignmentStatement
    · obtain rfl : c = .assignmentStatement := by
        cases c <;> first | rfl | cases assignment
      exact keepsTargets_assignment limit
    · exact (assembled_rule (analyser limit) c).keepsTargets ih assignment

/-- Every program adds only targets of assignments. -/
theorem keepsTargets_program (limit : Nat) : KeepsTargets (program limit) := by
  refine (keepsTargets_analyser limit .statementPart).bind fun _ => ?_
  refine KeepsTargets.bind (fun _ h => h) fun atEnd => ?_
  cases atEnd
  · exact (sparesVariables_reject _).keepsTargets
  · exact fun _ h => h

/-- Every variable that an analysis adds is the target of an assignment. -/
theorem targeted_analyseWithin (limit : Nat) (stream : TokenStream) :
    AllTargeted (analyseWithin limit stream).events.toList := by
  rcases hp : stream.pull with ⟨e | first, input⟩
  · rw [analyseWithin_of_error hp]
    exact .nil
  · have run := keepsTargets_program limit (.start first input)
      (by rw [AnalyserState.trace_start]; exact .nil)
    rw [analyseWithin_of_pull hp]
    cases hr : program limit (.start first input) with
    | ok a t => exact run.of_ok hr
    | error stop t => exact run.of_error hr

/-! ## The order of variables -/

/-- A variable has its name and position from an identifier that was taken, and the sign of an
assignment was taken next. -/
theorem AllTargeted.exists_target (h : AllTargeted events) (hv : v ∈ declared events) :
    ∃ before target sign after, accepted events = before ++ target :: sign :: after ∧
      target.type = .identifier ∧ sign.type = .colonEqual ∧
      v.identifier = target.value ∧ v.position = target.position := by
  obtain ⟨front, rest, rfl⟩ := exists_split_of_mem_declared hv
  obtain ⟨outer, target, sign, value, rfl, targets⟩ := h front (.add v) rest rfl
  exact ⟨accepted outer, target, sign, accepted (value ++ .add v :: rest),
    by simp [accepted_append, accepted_terminal_cons], targets.identifier, targets.colonEqual,
    targets.name_eq, targets.position_eq⟩

/-- What an assignment told before it declares its target declares nothing. -/
theorem Targets.declared_eq {outer value : List Event} {target sign : Token}
    (h : Targets target sign value v) :
    declared (outer ++ .terminal target :: .terminal sign :: value) = declared outer := by
  have none : declared (.terminal target :: .terminal sign :: value) = [] := by
    refine List.filterMap_eq_nil_iff.mpr fun e he => ?_
    have other : e.kind ≠ .add := by
      rcases List.mem_cons.mp he with rfl | he
      · nofun
      · rcases List.mem_cons.mp he with rfl | he
        · nofun
        · exact h.adds_none e he
    cases e with
    | add v => exact absurd rfl other
    | begin _ | finish _ | terminal _ | remove _ | error _ _ => rfl
  rw [declared_append, none, List.append_nil]

/-- If the tokens that were taken stand one behind the other, variables stand in the order in which
they are added. -/
theorem AllTargeted.pairwise_declared (h : AllTargeted events)
    (order : (accepted events).Pairwise (·.position < ·.position)) :
    (declared events).Pairwise (·.position < ·.position) := by
  -- Induction from the right: the target of the last variable was taken behind those of the others.
  induction events using List.reverseRecOn with
  | nil => exact .nil
  | append_singleton events e ih =>
    obtain ⟨so_far, last⟩ := forall_split_concat.mp h
    rw [accepted_append] at order
    have ordered := ih so_far (order.sublist (List.sublist_append_left ..))
    cases e with
    | add v =>
      obtain ⟨outer, target, sign, value, rfl, targets⟩ := last
      rw [declared_append, declared_add, targets.declared_eq, List.pairwise_append]
      rw [targets.declared_eq] at ordered
      refine ⟨ordered, List.pairwise_singleton .., fun w hw u hu => ?_⟩
      obtain rfl := List.mem_singleton.mp hu
      have earlier : AllTargeted outer := fun before e after split =>
        so_far before e (after ++ .terminal target :: .terminal sign :: value) (by simp [split])
      obtain ⟨front, first, next, rest, taken, -, -, -, position_eq⟩ := earlier.exists_target hw
      have behind : ∀ t ∈ accepted outer, t.position < target.position := by
        rw [accepted_append, accepted_terminal_cons, List.append_assoc,
          List.pairwise_append] at order
        exact fun t ht => order.2.2 t ht target (by simp)
      rw [position_eq, targets.position_eq]
      exact behind first (by simp [taken])
    | begin _ | finish _ | terminal _ | remove _ | error _ _ =>
      rwa [declared_concat (by simp [Event.kind])]

end BlockLang
