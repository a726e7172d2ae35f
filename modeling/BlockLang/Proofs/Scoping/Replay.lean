import BlockLang.Proofs.Reading.Walk
import Mathlib.Data.List.Forall2

/-!
# Replaying a trace

A trace tells what is declared after it. Each loop that is open has declarations of its own: they
begin with its production and are dropped at its end. A variable that was added goes to the
innermost loop that is open, or else it is global. What a loop drops is told right after its end.

## Main definitions

* `Declarations.record`, `replay`: the declarations after an event, and after a trace
* `withRemovals`: a trace with what each end of a loop drops
* `openLoops`: the loops that are open after a trace
* `Live events name`: a declaration of the name was not dropped yet

## Main results

* `replay_append`, `withRemovals_append`: traces in two parts
* `live_iff_lookup`: a name is live just when the replay finds it
-/

namespace BlockLang

/-- The declarations after one more event. -/
def Declarations.record (δ : Declarations) : Event → Declarations
  | .begin p => if p = Production.forStatement.name then δ.enter else δ
  | .finish p => if p = Production.forStatement.name then δ.leave else δ
  | .add v => δ.declare v
  | .terminal _ | .remove _ | .error _ _ => δ

namespace Declarations

@[simp] theorem record_begin_loop (δ : Declarations) :
    δ.record (.begin Production.forStatement.name) = δ.enter := by simp [record]

@[simp] theorem record_finish_loop (δ : Declarations) :
    δ.record (.finish Production.forStatement.name) = δ.leave := by simp [record]

/-- A production that is no loop declares nothing by beginning. -/
theorem record_begin_of_ne {p : String} (h : p ≠ Production.forStatement.name)
    (δ : Declarations) : δ.record (.begin p) = δ := if_neg h

/-- A production that is no loop drops nothing at its end. -/
theorem record_finish_of_ne {p : String} (h : p ≠ Production.forStatement.name)
    (δ : Declarations) : δ.record (.finish p) = δ := if_neg h

end Declarations

/-- The declarations after some more events. -/
def replay (δ : Declarations) (events : List Event) : Declarations := events.foldl .record δ

@[simp] theorem replay_nil (δ : Declarations) : replay δ [] = δ := rfl

@[simp] theorem replay_cons (δ : Declarations) (e : Event) (events : List Event) :
    replay δ (e :: events) = replay (δ.record e) events := rfl

@[simp] theorem replay_append (δ : Declarations) (es fs : List Event) :
    replay δ (es ++ fs) = replay (replay δ es) fs :=
  List.foldl_append

/-! ## Removals -/

/-- What the declarations of a loop come to: the latest of each name, in the order of the first
ones. -/
def contents (log : List Variable) : List Variable := (summary log).map Prod.snd

/-- The table of some declarations holds what they come to. -/
theorem values_table (log : List Variable) : (table log).values = contents log := by
  rw [Dictionary.values, entries_table, contents]

/-- What an event drops: a loop that ends drops its variables. -/
def Declarations.drops (δ : Declarations) : Event → List Event
  | .finish p =>
    if p = Production.forStatement.name then
      (contents (δ.loops.headD [])).map .remove
    else []
  | _ => []

/-- The events, and after each of them what it drops. -/
def withRemovals (δ : Declarations) : List Event → List Event
  | [] => []
  | e :: rest => e :: (δ.drops e ++ withRemovals (δ.record e) rest)

-- A name keeps its place when it is declared again.
example :
    let x : Variable := ⟨"x", .number, ⟨2, 1⟩⟩
    let y : Variable := ⟨"y", .string, ⟨3, 1⟩⟩
    let z : Variable := ⟨"x", .string, ⟨4, 1⟩⟩
    withRemovals .empty [.begin "ForStatement", .add x, .add y, .add z, .finish "ForStatement"] =
      [.begin "ForStatement", .add x, .add y, .add z, .finish "ForStatement", .remove z,
        .remove y] := by
  rfl

@[simp] theorem replay_removes (δ : Declarations) (vs : List Variable) :
    replay δ (vs.map .remove) = δ := by
  induction vs with
  | nil => rfl
  | cons v vs ih => exact ih

/-- The events that drop nothing themselves. -/
def withoutRemovals (events : List Event) : List Event :=
  events.filter fun e => e.kind ≠ .remove

theorem withRemovals_append (δ : Declarations) (es fs : List Event) :
    withRemovals δ (es ++ fs) = withRemovals δ es ++ withRemovals (replay δ es) fs := by
  induction es generalizing δ with
  | nil => rfl
  | cons e es ih => simp [withRemovals, ih]

@[simp] theorem withoutRemovals_append (es fs : List Event) :
    withoutRemovals (es ++ fs) = withoutRemovals es ++ withoutRemovals fs :=
  List.filter_append ..

/-- What is dropped was told before. -/
@[simp] theorem replay_withoutRemovals (δ : Declarations) (events : List Event) :
    replay δ (withoutRemovals events) = replay δ events := by
  induction events generalizing δ with
  | nil => rfl
  | cons e events ih => cases e <;> simp_all [withoutRemovals, Event.kind, Declarations.record]

/-! ## Open loops -/

/-- The open loops after one more event, which stands at a place in the trace. -/
def Event.loopsAt (place : Nat) (loops : List Nat) : Event → List Nat
  | .begin p => if p = Production.forStatement.name then place :: loops else loops
  | .finish p => if p = Production.forStatement.name then loops.tail else loops
  | .add _ | .terminal _ | .remove _ | .error _ _ => loops

/-- The open loops after some more events. -/
def loopsFrom : Nat → List Nat → List Event → List Nat
  | _, loops, [] => loops
  | place, loops, e :: rest => loopsFrom (place + 1) (e.loopsAt place loops) rest

/-- The loops that are open after a trace, the innermost first. Each is told by the place in the
trace where it begins. -/
def openLoops (events : List Event) : List Nat := loopsFrom 0 [] events

theorem loopsFrom_append (place : Nat) (loops : List Nat) (es fs : List Event) :
    loopsFrom place loops (es ++ fs) =
      loopsFrom (place + es.length) (loopsFrom place loops es) fs := by
  induction es generalizing place loops with
  | nil => rfl
  | cons e es ih =>
    rw [List.cons_append, loopsFrom, ih, loopsFrom, List.length_cons]
    congr 1
    omega

theorem openLoops_concat (events : List Event) (e : Event) :
    openLoops (events ++ [e]) = e.loopsAt events.length (openLoops events) := by
  rw [openLoops, loopsFrom_append, Nat.zero_add]
  rfl

/-- An open loop began before the end of the trace, and an inner one began after an outer one. -/
theorem openLoops_ordered (events : List Event) :
    (∀ loop ∈ openLoops events, loop < events.length) ∧
      (openLoops events).Pairwise (· > ·) := by
  induction events using List.reverseRecOn with
  | nil => exact ⟨by simp [openLoops, loopsFrom], List.Pairwise.nil⟩
  | append_singleton events e ih =>
    obtain ⟨began, ordered⟩ := ih
    have same : (∀ loop ∈ openLoops events, loop < (events ++ [e]).length) ∧
        (openLoops events).Pairwise (· > ·) := by
      refine ⟨fun loop hl => ?_, ordered⟩
      have := began loop hl
      rw [List.length_append]
      omega
    rw [openLoops_concat]
    cases e with
    | begin p =>
      rw [Event.loopsAt]
      split
      · refine ⟨fun loop hl => ?_, List.pairwise_cons.mpr ⟨began, ordered⟩⟩
        rcases List.mem_cons.mp hl with rfl | hl
        · simp
        · exact same.1 loop hl
      · exact same
    | finish p =>
      rw [Event.loopsAt]
      split
      · exact ⟨fun loop hl => same.1 loop (List.mem_of_mem_tail hl), ordered.tail⟩
      · exact same
    | add _ | terminal _ | remove _ | error _ _ => exact same

/-! ## Live declarations -/

/-- A declaration of the name was added, and it is still there: no loop was open then, or the
innermost of the loops that were open is open yet. -/
def Live (events : List Event) (name : String) : Prop :=
  ∃ before v after, events = before ++ .add v :: after ∧ v.identifier = name ∧
    ∀ loop, (openLoops before).head? = some loop → loop ∈ openLoops events

/-- The variable was added while the owner was the innermost open loop, if it is one. -/
def AddedIn (owner : Option Nat) (events : List Event) (v : Variable) : Prop :=
  ∃ before after, events = before ++ .add v :: after ∧ (openLoops before).head? = owner

theorem addedIn_concat {owner : Option Nat} {events : List Event} {e : Event} {v : Variable} :
    AddedIn owner (events ++ [e]) v ↔
      AddedIn owner events v ∨ e = .add v ∧ (openLoops events).head? = owner := by
  constructor
  · rintro ⟨before, after, split, head⟩
    rcases List.eq_nil_or_concat' after with rfl | ⟨after, last, rfl⟩
    · obtain ⟨rfl, last⟩ := List.append_inj' split rfl
      exact .inr ⟨List.singleton_inj.mp last, head⟩
    · rw [← List.cons_append, ← List.append_assoc] at split
      obtain ⟨rfl, -⟩ := List.append_inj' split rfl
      exact .inl ⟨before, after, rfl, head⟩
  · rintro (⟨before, after, rfl, head⟩ | ⟨rfl, head⟩)
    · exact ⟨before, after ++ [e], by simp, head⟩
    · exact ⟨events, [], rfl, head⟩

/-- Each of the logs holds what was added in its loop. -/
def LogsOf (events : List Event) : List Nat → List (List Variable) → Prop :=
  List.Forall₂ fun loop log => ∀ v, v ∈ log ↔ AddedIn (some loop) events v

/-- An event that adds nothing to the loops leaves their logs as they are. -/
theorem LogsOf.concat {events : List Event} {e : Event} {loops : List Nat}
    {logs : List (List Variable)} (h : LogsOf events loops logs)
    (elsewhere : ∀ v, e = .add v → ∀ loop ∈ loops, (openLoops events).head? ≠ some loop) :
    LogsOf (events ++ [e]) loops logs := by
  induction h with
  | nil => exact .nil
  | @cons loop log loops logs held _ ih =>
    refine .cons (fun v => ?_) (ih fun v he loop hl => elsewhere v he loop
      (List.mem_cons_of_mem _ hl))
    rw [addedIn_concat, held v]
    exact (or_iff_left fun h => elsewhere v h.1 loop List.mem_cons_self h.2).symm

theorem LogsOf.tail {events : List Event} {loops : List Nat} {logs : List (List Variable)}
    (h : LogsOf events loops logs) : LogsOf events loops.tail logs.tail := by
  cases h with
  | nil => exact .nil
  | cons _ outer => exact outer

/-- The declarations hold what was added globally and in the open loops. -/
structure Holds (events : List Event) (δ : Declarations) : Prop where
  globals : ∀ v, v ∈ δ.globals ↔ AddedIn none events v
  loops : LogsOf events (openLoops events) δ.loops

variable {events : List Event} {δ : Declarations} {e : Event}

/-- What is global stays global, unless something is added while no loop is open. -/
theorem Holds.globals_concat (h : Holds events δ)
    (elsewhere : ∀ v, e = .add v → (openLoops events).head? ≠ none) (v : Variable) :
    v ∈ δ.globals ↔ AddedIn none (events ++ [e]) v := by
  rw [addedIn_concat, h.globals v]
  exact (or_iff_left fun he => elsewhere v he.1 he.2).symm

/-- What is added goes to the innermost open loop, or else it is global. -/
theorem Holds.declare (h : Holds events δ) (x : Variable) :
    Holds (events ++ [.add x]) (δ.declare x) := by
  have ordered := (openLoops_ordered events).2
  have loops_eq : openLoops (events ++ [.add x]) = openLoops events := openLoops_concat ..
  have added (owner : Option Nat) (log : List Variable) (head : (openLoops events).head? = owner)
      (held : ∀ v, v ∈ log ↔ AddedIn owner events v) (v : Variable) :
      v ∈ log ++ [x] ↔ AddedIn owner (events ++ [.add x]) v := by
    rw [addedIn_concat, ← held v, List.mem_append, List.mem_singleton]
    simp [head, eq_comm]
  obtain ⟨globals, loops⟩ := δ
  have held : LogsOf events (openLoops events) loops := h.loops
  cases loops with
  | nil =>
    have closed : openLoops events = [] := List.forall₂_nil_right_iff.mp held
    refine ⟨added none globals (by rw [closed]; rfl) h.globals, ?_⟩
    rw [loops_eq, closed]
    exact .nil
  | cons log outer =>
    obtain ⟨loop, others, innermost, rest, split⟩ := List.forall₂_cons_right_iff.mp held
    rw [split] at ordered
    refine ⟨h.globals_concat (by simp [split]), ?_⟩
    rw [loops_eq, split]
    refine .cons (added (some loop) log (by rw [split]; rfl) innermost) ?_
    -- The outer loops began before the innermost one.
    refine LogsOf.concat rest fun _ _ outer_loop ho he => ?_
    rw [split, List.head?_cons, Option.some_inj] at he
    have earlier := (List.pairwise_cons.mp ordered).1 outer_loop ho
    omega

/-- A loop that has just begun holds nothing. -/
theorem not_addedIn_of_length_le {loop : Nat} (h : events.length ≤ loop) (v : Variable) :
    ¬AddedIn (some loop) events v := by
  rintro ⟨before, after, rfl, head⟩
  have began := (openLoops_ordered before).1 loop (List.mem_of_head? head)
  rw [List.length_append] at h
  omega

/-- A replay holds what was added globally and in the open loops. -/
theorem holds_replay (events : List Event) : Holds events (replay .empty events) := by
  induction events using List.reverseRecOn with
  | nil =>
    refine ⟨fun v => iff_of_false List.not_mem_nil ?_, .nil⟩
    rintro ⟨before, after, split, -⟩
    simp at split
  | append_singleton events e ih =>
    rw [replay_append, replay_cons, replay_nil]
    have loops_eq := openLoops_concat events e
    generalize replay .empty events = δ at ih ⊢
    -- Only an addition changes what the loops hold that stay open.
    have later (silent : ∀ v, e ≠ .add v) : LogsOf (events ++ [e]) (openLoops events) δ.loops :=
      ih.loops.concat fun v he => absurd he (silent v)
    cases e with
    | add x => exact ih.declare x
    | terminal _ | remove _ | error _ _ =>
      exact ⟨ih.globals_concat nofun, loops_eq ▸ later nofun⟩
    | begin p =>
      rw [Event.loopsAt] at loops_eq
      rw [Declarations.record]
      split at loops_eq
      · next hp =>
        rw [if_pos hp]
        refine ⟨ih.globals_concat nofun, ?_⟩
        rw [loops_eq]
        refine .cons (fun v => iff_of_false List.not_mem_nil ?_) (later nofun)
        rw [addedIn_concat]
        rintro (added | ⟨⟨⟩, -⟩)
        exact not_addedIn_of_length_le (Nat.le_refl _) v added
      · next hp =>
        rw [if_neg hp]
        exact ⟨ih.globals_concat nofun, loops_eq ▸ later nofun⟩
    | finish p =>
      rw [Event.loopsAt] at loops_eq
      rw [Declarations.record]
      split at loops_eq
      · next hp =>
        rw [if_pos hp]
        exact ⟨ih.globals_concat nofun, loops_eq ▸ (later nofun).tail⟩
      · next hp =>
        rw [if_neg hp]
        exact ⟨ih.globals_concat nofun, loops_eq ▸ later nofun⟩

/-- A replay finds a name if one of its logs holds a declaration of it. -/
theorem lookup_ne_none_iff (δ : Declarations) (name : String) :
    δ.lookup name ≠ none ↔
      (∃ v ∈ δ.globals, v.identifier = name) ∨ ∃ log ∈ δ.loops, ∃ v ∈ log, v.identifier = name := by
  have found (log : List Variable) :
      latest name log ≠ none ↔ ∃ v ∈ log, v.identifier = name := by
    simp [latest]
  have one : δ.lookup name ≠ none ↔
      ∃ log ∈ δ.loops.reverse ++ [δ.globals], latest name log ≠ none := by
    rw [Declarations.lookup, ne_eq, List.findSome?_eq_none_iff]
    simp
  simp only [one, found, List.mem_append, List.mem_reverse, List.mem_singleton, or_and_right,
    exists_or, exists_eq_left, or_comm]

theorem LogsOf.exists_iff {loops : List Nat} {logs : List (List Variable)} {name : String}
    (h : LogsOf events loops logs) : (∃ log ∈ logs, ∃ v ∈ log, v.identifier = name) ↔
      ∃ loop ∈ loops, ∃ v, AddedIn (some loop) events v ∧ v.identifier = name := by
  induction h with
  | nil => simp
  | cons held _ ih => simp only [List.exists_mem_cons_iff, ih, held]

/-- A name is live just when the replay finds it. -/
theorem live_iff_lookup (events : List Event) (name : String) :
    Live events name ↔ (replay .empty events).lookup name ≠ none := by
  obtain ⟨globals, loops⟩ := holds_replay events
  rw [lookup_ne_none_iff, loops.exists_iff]
  constructor
  · rintro ⟨before, v, after, split, rfl, still⟩
    cases head : (openLoops before).head? with
    | none => exact .inl ⟨v, (globals v).mpr ⟨before, after, split, head⟩, rfl⟩
    | some loop => exact .inr ⟨loop, still loop head, v, ⟨before, after, split, head⟩, rfl⟩
  · rintro (⟨v, hv, rfl⟩ | ⟨loop, hl, v, ⟨before, after, split, head⟩, rfl⟩)
    · obtain ⟨before, after, split, head⟩ := (globals v).mp hv
      exact ⟨before, v, after, split, rfl, by simp [head]⟩
    · refine ⟨before, v, after, split, rfl, fun inner hi => ?_⟩
      cases head.symm.trans hi
      exact hl

end BlockLang
