import BlockLang.Proofs.Scoping.Replay
import BlockLang.Proofs.Trace.Nesting

/-!
# Names that are declared outside of loops

A name may be declared in a loop and outside of it, and then it stands for different variables at
different places. If none of its declarations was made in a loop, there is nothing to hide: the name
stands for its last declaration, whatever loops are open.

## Main definitions

* `Outside events name position`: no declaration of the name up to a position was made in a loop

## Main results

* `depth_replay_eq_count`: a replay has a log for each loop that is open
* `lookup_replay_of_outside`: a name that is not declared in loops stands for its last declaration
-/

namespace BlockLang

/-- No declaration of the name that the trace tells of, and that stands at a position or before it,
was made while a loop was open. -/
def Outside (events : List Event) (name : String) (position : Position) : Prop :=
  ∀ before v after, events = before ++ .add v :: after → v.identifier = name →
    v.position ≤ position → Production.forStatement.name ∉ openProductions before

variable {events before : List Event} {stack left : List String} {name : String}
  {position : Position} {δ : Declarations}

theorem outside_iff : Outside events name position ↔
    ∀ i (h : i < events.length), ∀ v ∈ events[i].declared?, v.identifier = name →
      v.position ≤ position → Production.forStatement.name ∉ openProductions (events.take i) := by
  constructor
  · intro h i hi v hv
    have split := events.take_append_drop i
    rw [List.drop_eq_getElem_cons hi] at split
    refine h (events.take i) v (events.drop (i + 1)) ?_
    cases he : events[i] with
    | add w =>
      rw [he] at hv split
      obtain rfl := Option.some.inj hv
      exact split.symm
    | begin _ | finish _ | terminal _ | remove _ | error _ _ =>
      rw [he] at hv
      cases hv
  · rintro h before v after rfl
    have here := h before.length (by simp) v (by simp [Event.declared?])
    rwa [List.take_left] at here

instance : Decidable (Outside events name position) := decidable_of_iff' _ outside_iff

/-! ## Open loops -/

/-- A replay has a log for each loop that is open. -/
theorem depth_replay_eq_count (h : opened stack events = some left)
    (hs : stack.count Production.forStatement.name = δ.depth) :
    left.count Production.forStatement.name = (replay δ events).depth := by
  induction events generalizing stack δ with
  | nil =>
    obtain rfl := Option.some.inj h
    exact hs
  | cons e events ih =>
    rw [opened_cons, Option.bind_eq_some_iff] at h
    obtain ⟨middle, he, h⟩ := h
    refine ih h ?_
    cases e with
    | begin p =>
      obtain rfl : p :: stack = middle := by cases stack <;> exact Option.some.inj he
      rw [List.count_cons, hs, Declarations.record]
      by_cases loop : p = Production.forStatement.name <;> simp [loop, Declarations.depth,
        Declarations.enter]
    | finish p =>
      obtain rfl := openStep_finish_eq_some he
      rw [List.count_cons] at hs
      rw [Declarations.record]
      by_cases loop : p = Production.forStatement.name
      · rw [if_pos (by simpa using loop)] at hs
        rw [if_pos loop, Declarations.depth_leave, ← hs, Nat.add_sub_cancel]
      · rw [if_neg (by simpa using loop)] at hs
        rw [if_neg loop, ← hs, Nat.add_zero]
    | add v =>
      obtain rfl : stack = middle := by cases stack <;> exact Option.some.inj he
      rw [hs]
      exact (δ.depth_declare v).symm
    | terminal _ | remove _ | error _ _ =>
      obtain rfl : stack = middle := by cases stack <;> exact Option.some.inj he
      exact hs

/-- Where no loop is open, everything that is declared is global. -/
theorem loops_replay_eq_nil (h : opened [] before = some left)
    (outside : Production.forStatement.name ∉ openProductions before) :
    (replay .empty before).loops = [] := by
  rw [openProductions, opened_eq h, List.mem_reverse] at outside
  rw [← List.length_eq_zero_iff, ← List.count_eq_zero.mpr outside]
  exact (depth_replay_eq_count h rfl).symm

/-! ## Names -/

theorem declared_append (es fs : List Event) : declared (es ++ fs) = declared es ++ declared fs :=
  List.filterMap_append

@[simp] theorem declared_add (v : Variable) : declared [.add v] = [v] := rfl

/-- What adds nothing declares nothing. -/
theorem declared_concat {e : Event} (h : e.kind ≠ .add) :
    declared (events ++ [e]) = declared events := by
  rw [declared_append]
  cases e with
  | add v => exact absurd rfl h
  | begin _ | finish _ | terminal _ | remove _ | error _ _ => exact List.append_nil _

/-- What a trace declares was added at some place of it. -/
theorem exists_split_of_mem_declared {v : Variable} (h : v ∈ declared events) :
    ∃ before after, events = before ++ .add v :: after := by
  obtain ⟨e, he, declares⟩ := List.mem_filterMap.mp h
  cases e with
  | add x =>
    obtain rfl := Option.some.inj declares
    exact List.append_of_mem he
  | begin _ | finish _ | terminal _ | remove _ | error _ _ => cases declares

theorem latest_eq_getLast? (name : String) (log : List Variable) :
    latest name log = (log.filter fun v => v.identifier = name).getLast? := by
  rw [latest, ← List.head?_filter, List.filter_reverse, List.head?_reverse]

/-- What a replay holds of a name that is declared outside of loops: nothing in its loops, and all
declarations of the name among the global ones. -/
theorem logs_of_outside (h : ∀ before v after, events = before ++ .add v :: after →
      v.identifier = name → (replay .empty before).loops = []) :
    (∀ log ∈ (replay .empty events).loops, ∀ v ∈ log, v.identifier ≠ name) ∧
      ((replay .empty events).globals.filter fun v => v.identifier = name) =
        (declared events).filter fun v => v.identifier = name := by
  induction events using List.reverseRecOn with
  | nil => exact ⟨List.forall_mem_nil _, rfl⟩
  | append_singleton events e ih =>
    have last := h events
    obtain ⟨loops, globals⟩ := ih fun before v after split =>
      h before v (after ++ [e]) (by simp [split])
    rw [replay_append, replay_cons, replay_nil]
    generalize replay .empty events = δ at loops globals last ⊢
    cases e with
    | add v =>
      rw [declared_append, declared_add, List.filter_append, ← globals]
      obtain ⟨log, loop_logs⟩ := δ
      cases loop_logs with
      | nil => exact ⟨List.forall_mem_nil _, List.filter_append ..⟩
      | cons inner outer =>
        -- A loop is open, so this is another name.
        have other : v.identifier ≠ name := fun same => by cases last v [] rfl same
        obtain ⟨here, others⟩ := List.forall_mem_cons.mp loops
        refine ⟨List.forall_mem_cons.mpr ⟨fun w hw => ?_, others⟩, by
          simp [Declarations.record, Declarations.declare, other]⟩
        rcases List.mem_append.mp hw with hw | hw
        · exact here w hw
        · exact List.mem_singleton.mp hw ▸ other
    | begin p =>
      rw [declared_concat (by simp [Event.kind]), Declarations.record]
      split
      · exact ⟨List.forall_mem_cons.mpr ⟨List.forall_mem_nil _, loops⟩, globals⟩
      · exact ⟨loops, globals⟩
    | finish p =>
      rw [declared_concat (by simp [Event.kind]), Declarations.record]
      split
      · exact ⟨fun log hl => loops log (List.mem_of_mem_tail hl), globals⟩
      · exact ⟨loops, globals⟩
    | terminal _ | remove _ | error _ _ =>
      rw [declared_concat (by simp [Event.kind])]
      exact ⟨loops, globals⟩

/-- A name that is not declared in loops stands for its last declaration. -/
theorem lookup_replay_of_outside (h : ∀ before v after, events = before ++ .add v :: after →
      v.identifier = name → (replay .empty before).loops = []) :
    (replay .empty events).lookup name =
      ((declared events).filter fun v => v.identifier = name).getLast? := by
  obtain ⟨loops, globals⟩ := logs_of_outside h
  have hidden : (replay .empty events).loops.reverse.findSome? (latest name) = none := by
    refine List.findSome?_eq_none_iff.mpr fun log hl => ?_
    rw [latest_eq_getLast?, List.getLast?_eq_none_iff, List.filter_eq_nil_iff]
    simpa using loops log (List.mem_reverse.mp hl)
  rw [Declarations.lookup, List.findSome?_append, hidden, Option.none_or, List.findSome?_singleton,
    latest_eq_getLast?, globals]

end BlockLang
