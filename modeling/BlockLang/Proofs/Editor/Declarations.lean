import BlockLang.Proofs.Editor.Places
import BlockLang.Proofs.Scoping.Targets

/-!
# Declarations by place

A trace adds a variable behind the value that it is assigned, in headers and bodies of loops as
elsewhere, and it may end at any time. Still, a source declares its variables from its front to its
end: each is the target of an assignment, and no target is taken before the last one is declared. So
the last declaration of a name in a trace is the one nearest to the place where the search ends.

## Main definitions

* `AssignedIn source v`: an identifier of the source with an assignment sign behind it is declared
* `IsLatest events name position v`: the variable is the declaration of a name nearest to a position
* `DeclaredInOrder source events`: what the trace adds is found by its place in the source

## Main results

* `accepted_isPrefix_deliveriesOf`: an analysis takes the first tokens of its source
* `latestDeclaration?_eq_some_iff`: the last declaration is the nearest one
* `declarations_stand_in_order`: what an analysis adds is found by its place in the source
-/

namespace BlockLang

open Editor

variable {limit : Nat} {source name : String} {events : List Event} {v w : Variable}
  {position : Position}

/-! ## Targets in the source -/

/-- The tokens that an analysis takes are the first ones of its source. -/
theorem accepted_isPrefix_deliveriesOf (limit : Nat) (source : String) :
    (accepted (analyseWithin limit (.ofSource source)).events.toList).map .ok <+:
      deliveriesOf source := by
  obtain ⟨next, taken⟩ := exists_front_eq limit (.ofSource source)
  have front := front_accepted_isPrefix limit source
  rw [taken] at front
  exact (List.prefix_append ..).trans front

/-- The tokens that an analysis takes stand one behind the other. -/
theorem pairwise_accepted (limit : Nat) (source : String) :
    (accepted (analyseWithin limit (.ofSource source)).events.toList).Pairwise
      (·.position < ·.position) := by
  have ordered := pairwise_deliveries _ (.start source) (Cursor.length_rest_start_lt source)
  have taken := ordered.sublist (accepted_isPrefix_deliveriesOf limit source).sublist
  rw [List.pairwise_map] at taken
  exact taken

/-- The source assigns to the variable at its position: an identifier with its name stands there,
and the next token is the sign of an assignment. -/
def AssignedIn (source : String) (v : Variable) : Prop :=
  ∃ before target sign after, deliveriesOf source = before ++ .ok target :: .ok sign :: after ∧
    target.type = .identifier ∧ sign.type = .colonEqual ∧
    v.identifier = target.value ∧ v.position = target.position

/-- What an analysis adds is assigned to in its source. -/
theorem assignedIn_of_declared
    (h : v ∈ declared (analyseWithin limit (.ofSource source)).events.toList) :
    AssignedIn source v := by
  obtain ⟨before, target, sign, after, taken, facts⟩ :=
    (targeted_analyseWithin limit (.ofSource source)).exists_target h
  obtain ⟨rest, whole⟩ := accepted_isPrefix_deliveriesOf limit source
  refine ⟨before.map .ok, target, sign, after.map .ok ++ rest, ?_, facts⟩
  rw [← whole, taken]
  simp

/-! ## The nearest declaration -/

/-- The variable is a declaration of the name at the position or before it, and none that the trace
adds is nearer. -/
structure IsLatest (events : List Event) (name : String) (position : Position) (v : Variable) :
    Prop where
  declared : v ∈ declared events
  name_eq : v.identifier = name
  le : v.position ≤ position
  nearest : ∀ w ∈ BlockLang.declared events, w.identifier = name → w.position ≤ position →
    w.position ≤ v.position

/-- Of variables that stand in order, the last one is behind all others. -/
theorem getLast?_eq_some_iff_nearest {vs : List Variable}
    (order : vs.Pairwise (·.position < ·.position)) :
    vs.getLast? = some v ↔ v ∈ vs ∧ ∀ w ∈ vs, w.position ≤ v.position := by
  rcases List.eq_nil_or_concat' vs with rfl | ⟨front, last, rfl⟩
  · simp
  · rw [List.getLast?_concat, Option.some.injEq]
    rw [List.pairwise_append] at order
    have behind (w : Variable) (hw : w ∈ front) : w.position < last.position :=
      order.2.2 w hw last (List.mem_singleton_self last)
    constructor
    · rintro rfl
      refine ⟨by simp, fun w hw => ?_⟩
      rcases List.mem_append.mp hw with hw | hw
      · exact Position.le_of_lt (behind w hw)
      · exact List.mem_singleton.mp hw ▸ .inr ⟨rfl, le_refl _⟩
    · rintro ⟨hv, nearest⟩
      rcases List.mem_append.mp hv with hv | hv
      · exact absurd (nearest last (by simp)) (Position.not_le_of_lt (behind v hv))
      · exact (List.mem_singleton.mp hv).symm

/-- What is found by place is the nearest declaration. -/
theorem latestDeclaration?_eq_some_iff
    (order : (declared events).Pairwise (·.position < ·.position)) :
    latestDeclaration? events name position = some v ↔ IsLatest events name position v := by
  rw [latestDeclaration?, getLast?_eq_some_iff_nearest (order.filter _)]
  simp only [List.mem_filter, decide_eq_true_eq, and_imp]
  exact ⟨fun ⟨⟨hv, same, le⟩, nearest⟩ => ⟨hv, same, le, nearest⟩,
    fun h => ⟨⟨h.declared, h.name_eq, h.le⟩, h.nearest⟩⟩

theorem latestDeclaration?_eq_none_iff : latestDeclaration? events name position = none ↔
    ∀ w ∈ declared events, w.identifier = name → ¬w.position ≤ position := by
  rw [latestDeclaration?, List.getLast?_eq_none_iff, List.filter_eq_nil_iff]
  simp only [decide_eq_true_eq, not_and]

/-! ## Analyses and documents -/

/-- What the trace adds stands in the source in the same order, each variable at an identifier that
is assigned to. So a search by place finds the nearest declaration of a name, if there is any. -/
structure DeclaredInOrder (source : String) (events : List Event) : Prop where
  increasing : (declared events).Pairwise (·.position < ·.position)
  assigned : ∀ v ∈ declared events, AssignedIn source v
  latest_iff : ∀ name position v,
    latestDeclaration? events name position = some v ↔ IsLatest events name position v
  none_iff : ∀ name position, latestDeclaration? events name position = none ↔
    ∀ w ∈ declared events, w.identifier = name → ¬w.position ≤ position

theorem declaredInOrder_nil (source : String) : DeclaredInOrder source [] where
  increasing := .nil
  assigned := List.forall_mem_nil _
  latest_iff _ _ _ := latestDeclaration?_eq_some_iff .nil
  none_iff _ _ := latestDeclaration?_eq_none_iff

theorem declaredInOrder_analyseWithin (limit : Nat) (source : String) :
    DeclaredInOrder source (analyseWithin limit (.ofSource source)).events.toList := by
  have increasing := (targeted_analyseWithin limit (.ofSource source)).pairwise_declared
    (pairwise_accepted limit source)
  exact ⟨increasing, fun v hv => assignedIn_of_declared hv,
    fun _ _ _ => latestDeclaration?_eq_some_iff increasing,
    fun _ _ => latestDeclaration?_eq_none_iff⟩

/-- What an analysis adds, however it ends, stands in its source in the same order, at identifiers
that are assigned to, and a search by place finds the nearest declaration of a name. So it is for a
document in an editor, which has no entries if its source is not lexed. -/
theorem declarations_stand_in_order (limit : Nat) (uri source : String) :
    DeclaredInOrder source (analyseWithin limit (.ofSource source)).events.toList ∧
      DeclaredInOrder source (analyseText limit uri source).events := by
  refine ⟨declaredInOrder_analyseWithin limit source, ?_⟩
  rw [analyseText]
  split
  · exact declaredInOrder_nil source
  · exact declaredInOrder_analyseWithin limit source

end BlockLang
