import BlockLang.Proofs.Dictionaries
import BlockLang.Scopes.Script

/-!
# Blocks of scripts

A block runs its body in a loop scope of its own and takes the scope away again. What the body
declares goes into this scope, or into that of a block inside it, so the scopes behind the block are
those before it. If the body ends, the variables that it declared itself are reported. If it is
broken off, at whatever depth, nothing is reported, and everything that was opened in it is dropped,
also scopes that nothing in it would have closed.

## Main definitions

* `ScopeAction.Built strays a`: the action declares, looks up, breaks off or is a block of such
  actions; with `strays` it may also open a scope that nothing closes
* `ScopeAction.BreaksOff a`: the action breaks off what is around it
* `declaredBy body`, `latestBy name body`: what the body declares itself, and its latest declaration
  of a name
* `Scopes.Over n outer s`: `n` loop scopes or more are open over those of `outer`
* `Scopes.holding outer table`: one loop scope is open over those of `outer`

## Main results

* `brokenOff_runActions_iff`: a body is broken off if an action of it breaks off
* `ScopeAction.Built.over_run`: an action keeps the scopes that others are open over
* `ScopeAction.Built.scopes_run`: an action changes nothing but the innermost scope
* `block_restores_scopes`: the scopes behind a block are those before it
-/

namespace BlockLang

variable {a : ScopeAction} {body : List ScopeAction} {strays passesOn : Bool} {outer s t : Scopes}
  {table : Table} {m n : Nat}

/-! ## Actions and bodies -/

namespace ScopeAction

/-- The action declares, looks up, breaks off, or is a block of such actions. With `strays` it may
also open a scope that nothing closes. -/
inductive Built (strays : Bool) : ScopeAction → Prop
  | declare (name : String) (v : Variable) : Built strays (.declare name v)
  | lookup (name : String) : Built strays (.lookup name)
  | breakOff : Built strays .breakOff
  | enter (allowed : strays = true) : Built strays .enter
  | block {body : List ScopeAction} (parts : ∀ a ∈ body, Built strays a) (passesOn : Bool) :
      Built strays (.block body passesOn)

/-- The action breaks off what is around it. -/
inductive BreaksOff : ScopeAction → Prop
  | breakOff : BreaksOff .breakOff
  | block {a : ScopeAction} {body : List ScopeAction} (part : a ∈ body) (breaks : a.BreaksOff) :
      BreaksOff (.block body true)

theorem breaksOff_block_iff :
    (block body passesOn).BreaksOff ↔ (∃ a ∈ body, a.BreaksOff) ∧ passesOn = true := by
  constructor
  · intro h
    cases h with
    | block part breaks => exact ⟨⟨_, part, breaks⟩, rfl⟩
  · rintro ⟨⟨a, part, breaks⟩, rfl⟩
    exact .block part breaks

/-- The scope that is innermost, behind the action. What a block declares is gone behind it. -/
def declareInto : ScopeAction → Table → Table
  | declare name v, table => table.insert name v
  | _, table => table

end ScopeAction

/-- The names and variables that a body declares itself, not in a block of it, in their order. -/
def declaredBy (body : List ScopeAction) : List (String × Variable) :=
  body.filterMap fun
    | .declare name v => some (name, v)
    | _ => none

/-- The variable that a body declares last under a name. -/
def latestBy (name : String) (body : List ScopeAction) : Option Variable :=
  ((declaredBy body).reverse.find? fun entry => entry.1 = name).map Prod.snd

/-- A scope that is empty before a body holds its declarations behind it. -/
theorem foldl_declareInto (body : List ScopeAction) :
    body.foldl (fun table a => a.declareInto table) .empty = .ofList (declaredBy body) := by
  induction body using List.reverseRecOn with
  | nil => rfl
  | append_singleton body a ih =>
    have split : declaredBy (body ++ [a]) = declaredBy body ++ declaredBy [a] :=
      List.filterMap_append
    rw [List.foldl_append, ih, split]
    cases a with
    | declare name v => exact (Dictionary.ofList_concat _ (name, v)).symm
    | _ => exact congrArg Dictionary.ofList (List.append_nil _).symm

/-! ## Breaking off -/

mutual

/-- Whether an action is broken off does not depend on the scopes. -/
theorem ScopeAction.brokenOff_run_iff :
    ∀ (a : ScopeAction) (s : Scopes), (a.run s).brokenOff = true ↔ a.BreaksOff
  | .breakOff, s => by simp [ScopeAction.run, ScopeAction.BreaksOff.breakOff]
  | .block body passesOn, s => by
    rw [ScopeAction.run, Bool.and_eq_true, brokenOff_runActions_iff body s.enter,
      ScopeAction.breaksOff_block_iff]
  | .declare _ _, s | .lookup _, s | .enter, s | .leave, s => by
    simp only [ScopeAction.run, Bool.false_eq_true, false_iff]
    exact nofun

/-- A body is broken off if an action of it breaks off. -/
theorem brokenOff_runActions_iff :
    ∀ (body : List ScopeAction) (s : Scopes),
      (runActions body s).brokenOff = true ↔ ∃ a ∈ body, a.BreaksOff
  | [], s => by simp [runActions]
  | a :: rest, s => by
    have first := a.brokenOff_run_iff s
    rw [List.exists_mem_cons_iff, runActions]
    dsimp only
    split
    · next broken => exact iff_of_true broken (.inl (first.mp broken))
    · next going =>
      rw [or_iff_right (mt first.mpr going)]
      exact brokenOff_runActions_iff rest _

end

theorem brokenOff_runActions_eq_false (ends : ∀ a ∈ body, ¬a.BreaksOff) (s : Scopes) :
    (runActions body s).brokenOff = false := by
  rw [← Bool.not_eq_true, brokenOff_runActions_iff]
  exact fun ⟨a, ha, breaks⟩ => ends a ha breaks

/-! ## Scopes that others are open over -/

namespace Scopes

/-- The scopes are those of `outer` with `n` loop scopes or more open over them. -/
def Over (n : Nat) (outer s : Scopes) : Prop :=
  ∃ tables : List Table, n ≤ tables.length ∧ s = { outer with loops := tables ++ outer.loops }

namespace Over

theorem refl (s : Scopes) : Over 0 s s := ⟨[], Nat.zero_le _, rfl⟩

theorem trans (h : Over m outer s) (h' : Over n s t) : Over (m + n) outer t := by
  obtain ⟨below, hb, rfl⟩ := h
  obtain ⟨above, ha, rfl⟩ := h'
  exact ⟨above ++ below, by rw [List.length_append]; omega, by simp⟩

theorem mono (h : Over n outer s) (le : m ≤ n) : Over m outer s := by
  obtain ⟨tables, length, rfl⟩ := h
  exact ⟨tables, Nat.le_trans le length, rfl⟩

theorem enter (h : Over n outer s) : Over (n + 1) outer s.enter := by
  obtain ⟨tables, length, rfl⟩ := h
  exact ⟨.empty :: tables, Nat.succ_le_succ length, rfl⟩

/-- A declaration goes into the innermost of the scopes that were opened. -/
theorem declare (h : Over (n + 1) outer s) (name : String) (v : Variable) :
    Over (n + 1) outer (s.declare name v) := by
  obtain ⟨tables, length, rfl⟩ := h
  cases tables with
  | nil => cases length
  | cons table tables => exact ⟨table.insert name v :: tables, length, rfl⟩

/-- A closing takes the innermost of the scopes that were opened. -/
theorem closingStep (h : Over (n + 1) outer s) (move : ScopeMove)
    (answer : List Variable → ScopeAnswer) :
    Over n outer (closingStep move answer s).scopes := by
  obtain ⟨tables, length, rfl⟩ := h
  cases tables with
  | nil => cases length
  | cons table tables => exact ⟨tables, Nat.le_of_succ_le_succ length, rfl⟩

theorem restore (h : Over n outer s) : s.restore outer.depth = outer := by
  obtain ⟨tables, -, rfl⟩ := h
  simp [Scopes.restore, depth]

end Over

end Scopes

/-- What keeps the scopes action by action keeps them over a body. -/
theorem Scopes.Over.runActions
    (parts : ∀ a ∈ body, ∀ s, outer.Over 1 s → outer.Over 1 (a.run s).scopes)
    (h : outer.Over 1 s) : outer.Over 1 (runActions body s).scopes := by
  induction body generalizing s with
  | nil =>
    rw [BlockLang.runActions]
    exact h
  | cons a rest ih =>
    obtain ⟨first, others⟩ := List.forall_mem_cons.mp parts
    rw [BlockLang.runActions]
    dsimp only
    split
    · exact first s h
    · exact ih others (first s h)

namespace ScopeAction

/-- An action keeps the scopes that others are open over, however it ends. -/
theorem Built.over_run (built : a.Built strays) :
    ∀ outer s : Scopes, outer.Over 1 s → outer.Over 1 (a.run s).scopes := by
  induction built with
  | declare name v =>
    intro outer s h
    rw [run]
    exact h.declare name v
  | lookup | breakOff =>
    intro outer s h
    rw [run]
    exact h
  | enter =>
    intro outer s h
    rw [run]
    exact h.enter.mono (Nat.le_succ 1)
  | @block body parts passesOn ih =>
    intro outer s h
    -- The scopes before the block stay below its own, which is closed or dropped at its end.
    have inside : s.Over 1 (runActions body s.enter).scopes :=
      (Scopes.Over.refl s).enter.runActions fun a ha => ih a ha s
    have behind : s.Over 0 (blockEndStep s.depth (runActions body s.enter)).scopes := by
      rw [blockEndStep]
      split
      · exact inside.restore.symm ▸ .refl s
      · exact inside.closingStep _ _
    rw [run]
    exact h.trans behind

end ScopeAction

/-- A body keeps the scopes that its own is open over. -/
theorem over_runActions (built : ∀ a ∈ body, a.Built strays) (s : Scopes) :
    s.Over 1 (runActions body s.enter).scopes :=
  (Scopes.Over.refl s).enter.runActions fun a ha => (built a ha).over_run s

/-- A block whose body is broken off drops everything that was opened in it. -/
theorem run_block_of_breaksOff (built : ∀ a ∈ body, a.Built strays)
    (breaks : ∃ a ∈ body, a.BreaksOff) (passesOn : Bool) (s : Scopes) :
    (ScopeAction.block body passesOn).run s =
      ⟨⟨.blockBegin, .opened .empty, s.enter, []⟩ :: (runActions body s.enter).steps ++
        [⟨.blockEnd, .brokenOff, s, []⟩], s, passesOn⟩ := by
  have broken := (brokenOff_runActions_iff body s.enter).mpr breaks
  have last : blockEndStep s.depth (runActions body s.enter) = ⟨.blockEnd, .brokenOff, s, []⟩ := by
    rw [blockEndStep, if_pos broken, (over_runActions built s).restore]
  rw [ScopeAction.run, last, broken, Bool.true_and]

/-! ## The scope of a block -/

/-- The scopes of `outer` with one loop scope open over them. -/
def Scopes.holding (outer : Scopes) (table : Table) : Scopes :=
  { outer with loops := table :: outer.loops }

/-- A block whose body ends reports what its scope holds and closes it. -/
theorem run_block_of_holding (ends : ∀ a ∈ body, ¬a.BreaksOff)
    (holds : (runActions body s.enter).scopes = s.holding table) :
    (ScopeAction.block body passesOn).run s =
      ⟨⟨.blockBegin, .opened .empty, s.enter, []⟩ :: (runActions body s.enter).steps ++
        [⟨.blockEnd, .nothing, s, table.values.map .remove⟩], s, false⟩ := by
  have going := brokenOff_runActions_eq_false ends s.enter
  have last : blockEndStep s.depth (runActions body s.enter) =
      ⟨.blockEnd, .nothing, s, table.values.map .remove⟩ := by
    rw [blockEndStep, if_neg (by simp [going]), holds]
    rfl
  rw [ScopeAction.run, last, going, Bool.false_and]

/-- What changes the innermost scope alone action by action does so over a body. -/
theorem scopes_runActions (ends : ∀ a ∈ body, ¬a.BreaksOff)
    (parts : ∀ a ∈ body, ∀ table, (a.run (outer.holding table)).scopes =
      outer.holding (a.declareInto table)) (table : Table) :
    (runActions body (outer.holding table)).scopes =
      outer.holding (body.foldl (fun table a => a.declareInto table) table) := by
  induction body generalizing table with
  | nil => rw [runActions]; rfl
  | cons a rest ih =>
    obtain ⟨first, others⟩ := List.forall_mem_cons.mp parts
    obtain ⟨ends, quiet⟩ := List.forall_mem_cons.mp ends
    rw [runActions]
    dsimp only
    rw [if_neg (mt (a.brokenOff_run_iff _).mp ends), first table]
    exact ih quiet others (a.declareInto table)

/-- An action that ends changes nothing but the innermost scope, where it declares what is not in a
block of it. -/
theorem ScopeAction.Built.scopes_run (built : a.Built false) (ends : ¬a.BreaksOff) :
    ∀ (outer : Scopes) (table : Table), (a.run (outer.holding table)).scopes =
      outer.holding (a.declareInto table) := by
  induction built with
  | declare name v => exact fun outer table => by rw [run]; rfl
  | lookup => exact fun outer table => by rw [run]; rfl
  | breakOff => exact absurd .breakOff ends
  | enter allowed => cases allowed
  | @block body parts passesOn ih =>
    intro outer table
    by_cases quiet : ∀ a ∈ body, ¬a.BreaksOff
    · rw [run_block_of_holding quiet (scopes_runActions quiet
        (fun a ha table => ih a ha (quiet a ha) _ table) .empty)]
      rfl
    · push Not at quiet
      rw [run_block_of_breaksOff parts quiet]
      rfl

/-! ## Blocks -/

/-- A block leaves the scopes as they were before it. If its body ends, the block reports at last
one variable for each name that the body declared itself, in the order of the first declarations and
with the latest values. If the body is broken off, at whatever depth, the block reports nothing and
breaks off what is around it, unless this does not let it pass; then the body may also have opened
scopes that nothing closed. -/
theorem block_restores_scopes (body : List ScopeAction) (passesOn : Bool) (s : Scopes) :
    ((∀ a ∈ body, a.Built false) → (∀ a ∈ body, ¬a.BreaksOff) → ∃ vs : List Variable,
      vs.map some = ((declaredBy body).map Prod.fst).eraseDups.map (latestBy · body) ∧
      (ScopeAction.block body passesOn).run s =
        ⟨⟨.blockBegin, .opened .empty, s.enter, []⟩ :: (runActions body s.enter).steps ++
          [⟨.blockEnd, .nothing, s, vs.map .remove⟩], s, false⟩) ∧
    ∀ strays, (∀ a ∈ body, a.Built strays) → (∃ a ∈ body, a.BreaksOff) →
      (ScopeAction.block body passesOn).run s =
        ⟨⟨.blockBegin, .opened .empty, s.enter, []⟩ :: (runActions body s.enter).steps ++
          [⟨.blockEnd, .brokenOff, s, []⟩], s, passesOn⟩ := by
  refine ⟨fun built ends => ?_, fun _ built breaks => run_block_of_breaksOff built breaks _ s⟩
  refine ⟨(Dictionary.ofList (declaredBy body)).values, ?_, ?_⟩
  · rw [Dictionary.values_eq (Dictionary.nodup_keys_ofList _), Dictionary.keys_ofList]
    exact List.map_congr_left fun name _ => Dictionary.find?_ofList _ name
  · refine run_block_of_holding ends ?_
    rw [← foldl_declareInto]
    exact scopes_runActions ends (fun a ha => (built a ha).scopes_run (ends a ha) s) .empty

/-- A loop inside a program that has declared a name. -/
def oneLoop : Scopes :=
  ⟨.ofList [("x", ⟨"x", .number, ⟨1, 7⟩⟩)], [.ofList [("i", ⟨"i", .number, ⟨2, 5⟩⟩)]]⟩

/-- A body that declares one name twice, and in between another in a block that is broken off. -/
def declaringBody : List ScopeAction :=
  [.declare "b" ⟨"b", .number, ⟨3, 7⟩⟩,
    .block [.declare "x" ⟨"x", .string, ⟨4, 9⟩⟩, .breakOff] false,
    .declare "a" ⟨"a", .number, ⟨5, 7⟩⟩, .declare "b" ⟨"b", .string, ⟨6, 7⟩⟩]

/-- A body that is broken off two blocks further in, under scopes that nothing closes. -/
def strayBody : List ScopeAction :=
  [.enter, .declare "a" ⟨"a", .number, ⟨3, 7⟩⟩, .block [.enter, .block [.breakOff] true] true]

theorem block_restores_scopes_oneLoop :
    (∀ a ∈ declaringBody, a.Built false) ∧ (∀ a ∈ declaringBody, ¬a.BreaksOff) ∧
      (∃ vs : List Variable, vs = [⟨"b", .string, ⟨6, 7⟩⟩, ⟨"a", .number, ⟨5, 7⟩⟩] ∧
        (ScopeAction.block declaringBody true).run oneLoop =
          ⟨⟨.blockBegin, .opened .empty, oneLoop.enter, []⟩ ::
              (runActions declaringBody oneLoop.enter).steps ++
            [⟨.blockEnd, .nothing, oneLoop, vs.map .remove⟩], oneLoop, false⟩) ∧
      (∀ a ∈ strayBody, a.Built true) ∧ (∃ a ∈ strayBody, a.BreaksOff) ∧
      (ScopeAction.block strayBody true).run oneLoop =
        ⟨⟨.blockBegin, .opened .empty, oneLoop.enter, []⟩ ::
            (runActions strayBody oneLoop.enter).steps ++
          [⟨.blockEnd, .brokenOff, oneLoop, []⟩], oneLoop, true⟩ := by
  have built : ∀ a ∈ declaringBody, a.Built false := by
    simp only [declaringBody, List.forall_mem_cons]
    refine ⟨.declare _ _, .block ?_ _, .declare _ _, .declare _ _, List.forall_mem_nil _⟩
    simp only [List.forall_mem_cons]
    exact ⟨.declare _ _, .breakOff, List.forall_mem_nil _⟩
  have quiet : ∀ a ∈ declaringBody, ¬a.BreaksOff := by
    simp only [declaringBody, List.forall_mem_cons]
    exact ⟨nofun, nofun, nofun, nofun, List.forall_mem_nil _⟩
  have strays : ∀ a ∈ strayBody, a.Built true := by
    simp only [strayBody, List.forall_mem_cons]
    refine ⟨.enter rfl, .declare _ _, .block ?_ _, List.forall_mem_nil _⟩
    simp only [List.forall_mem_cons]
    refine ⟨.enter rfl, .block ?_ _, List.forall_mem_nil _⟩
    simpa using .breakOff
  have breaks : ∃ a ∈ strayBody, a.BreaksOff := by
    have inner : (ScopeAction.block [.breakOff] true).BreaksOff :=
      .block List.mem_cons_self .breakOff
    exact ⟨.block [.enter, .block [.breakOff] true] true, by simp [strayBody],
      .block (List.mem_cons_of_mem _ List.mem_cons_self) inner⟩
  obtain ⟨vs, taken, run⟩ := (block_restores_scopes declaringBody true oneLoop).1 built quiet
  refine ⟨built, quiet, ⟨vs, ?_, run⟩, strays, breaks,
    (block_restores_scopes strayBody true oneLoop).2 true strays breaks⟩
  have values : ((declaredBy declaringBody).map Prod.fst).eraseDups.map
      (latestBy · declaringBody) =
        [⟨"b", .string, ⟨6, 7⟩⟩, ⟨"a", .number, ⟨5, 7⟩⟩].map some := by decide +kernel
  exact List.map_injective_iff.mpr (fun _ _ => Option.some.inj) (taken.trans values)

end BlockLang
