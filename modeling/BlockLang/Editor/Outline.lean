import BlockLang.Editor.Diagnostic

/-!
# Outlines

The outline of a document lists its variables, each at its first declaration.

## Main definitions

* `Symbol`: an entry of an outline
* `firstDeclarations seen vs`: the variables whose names were not seen before
* `FirstOfName vs v`: no earlier variable of the list has the name
* `outline document`: the outline of a document

## Main results

* `firstDeclarations_nodup`: no name is listed twice
* `mem_firstDeclarations_iff`: the first variable of each name is listed
-/

namespace BlockLang.Editor

/-- An entry of an outline: a name, the type it was declared with, and where. An editor selects a
part of its stretch when the entry is chosen. -/
structure Symbol where
  name : String
  range : EditorRange
  selectionRange : EditorRange
  detail : String
  deriving DecidableEq, Repr

/-- The kind of all entries. -/
def Symbol.kind : String := "Variable"

/-- The entry of a variable; all of its stretch is selected. -/
def Symbol.ofVariable (v : Variable) : Symbol :=
  let range := nameRange v.position.line v.position.col v.identifier
  ⟨v.identifier, range, range, v.type.name⟩

/-- The variables whose names were not seen before, each name once. -/
def firstDeclarations (seen : List String) : List Variable → List Variable
  | [] => []
  | v :: vs =>
    if v.identifier ∈ seen then firstDeclarations seen vs
    else v :: firstDeclarations (v.identifier :: seen) vs

/-- The outline of a document. -/
def outline (document : DocumentAnalysis) : List Symbol :=
  (firstDeclarations [] (declared document.events)).map .ofVariable

theorem firstDeclarations_sublist (seen : List String) (vs : List Variable) :
    (firstDeclarations seen vs).Sublist vs := by
  induction vs generalizing seen with
  | nil => exact .slnil
  | cons w ws ih =>
    unfold firstDeclarations
    split
    · exact (ih seen).cons w
    · exact (ih _).cons_cons w

theorem identifier_notMem_of_mem_firstDeclarations {seen : List String} {vs : List Variable}
    {v : Variable} (h : v ∈ firstDeclarations seen vs) : v.identifier ∉ seen := by
  induction vs generalizing seen with
  | nil => simp [firstDeclarations] at h
  | cons w ws ih =>
    unfold firstDeclarations at h
    split at h
    · exact ih h
    · next hw =>
      rcases List.mem_cons.mp h with rfl | h
      · exact hw
      · exact fun hs => ih h (List.mem_cons_of_mem _ hs)

/-- No name is listed twice. -/
theorem firstDeclarations_nodup (seen : List String) (vs : List Variable) :
    ((firstDeclarations seen vs).map Variable.identifier).Nodup := by
  induction vs generalizing seen with
  | nil => simp [firstDeclarations]
  | cons w ws ih =>
    unfold firstDeclarations
    split
    · exact ih seen
    · rw [List.map_cons, List.nodup_cons]
      refine ⟨fun h => ?_, ih _⟩
      obtain ⟨v, hv, he⟩ := List.mem_map.mp h
      exact identifier_notMem_of_mem_firstDeclarations hv (by simp [he])

/-- The variable is in the list, and no variable before it has its name. -/
def FirstOfName (vs : List Variable) (v : Variable) : Prop :=
  ∃ before after, vs = before ++ v :: after ∧ ∀ w ∈ before, w.identifier ≠ v.identifier

/-- A variable is listed if it is the first of its name, and the name was not seen before. -/
theorem mem_firstDeclarations_iff {seen : List String} {vs : List Variable} {v : Variable} :
    v ∈ firstDeclarations seen vs ↔ v.identifier ∉ seen ∧ FirstOfName vs v := by
  constructor
  · intro h
    refine ⟨identifier_notMem_of_mem_firstDeclarations h, ?_⟩
    induction vs generalizing seen with
    | nil => cases h
    | cons w ws ih =>
      obtain rfl | ⟨seen', passed, h⟩ : v = w ∨
          ∃ seen', w.identifier ∈ seen' ∧ v ∈ firstDeclarations seen' ws := by
        unfold firstDeclarations at h
        split at h
        · next passed => exact .inr ⟨seen, passed, h⟩
        · exact (List.mem_cons.mp h).imp id fun h => ⟨_, List.mem_cons_self, h⟩
      · exact ⟨[], ws, rfl, List.forall_mem_nil _⟩
      · have new := identifier_notMem_of_mem_firstDeclarations h
        obtain ⟨before, after, rfl, first⟩ := ih h
        refine ⟨w :: before, after, rfl, List.forall_mem_cons.mpr ⟨fun same => ?_, first⟩⟩
        exact new (same ▸ passed)
  · rintro ⟨new, before, after, rfl, first⟩
    induction before generalizing seen with
    | nil => simp [firstDeclarations, new]
    | cons w before ih =>
      obtain ⟨other, first⟩ := List.forall_mem_cons.mp first
      rw [List.cons_append, firstDeclarations]
      split
      · exact ih new first
      · exact List.mem_cons_of_mem _ (ih (by simp [new, other.symm]) first)

/-- A name is listed if it is declared. -/
theorem mem_map_firstDeclarations_iff {vs : List Variable} {name : String} :
    name ∈ (firstDeclarations [] vs).map Variable.identifier ↔ ∃ v ∈ vs, v.identifier = name := by
  constructor
  · intro h
    obtain ⟨v, hv, same⟩ := List.mem_map.mp h
    exact ⟨v, (firstDeclarations_sublist [] vs).mem hv, same⟩
  · rintro ⟨v, hv, same⟩
    obtain ⟨u, found⟩ : ∃ u, vs.find? (·.identifier = name) = some u := by
      refine Option.isSome_iff_exists.mp (List.find?_isSome.mpr ⟨v, hv, ?_⟩)
      simpa using same
    rw [List.find?_eq_some_iff_append] at found
    obtain ⟨named, before, after, rfl, first⟩ := found
    obtain rfl : u.identifier = name := by simpa using named
    refine List.mem_map_of_mem (mem_firstDeclarations_iff.mpr ⟨List.not_mem_nil, ?_⟩)
    exact ⟨before, after, rfl, fun w hw => by simpa using first w hw⟩

end BlockLang.Editor
