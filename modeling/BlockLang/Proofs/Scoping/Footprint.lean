import BlockLang.Proofs.Reading.Walk
import BlockLang.Proofs.Run.Composed

/-!
# What a loop leaves behind

While a loop is open, what is declared goes into its own scope, so the global scope and the scopes
of the loops around it stay as they were. When the loop is left, by its end or by a stop, its scope
is gone as well. The same holds of the walk of a derivation and what is declared on it.

## Main definitions

* `Scopes.Inside outer s`: one loop more is open than in `outer`, the rest is as there
* `Analyser.Confined m`: inside a loop, the move changes nothing but the scope of the loop
* `Declarations.Inside outer δ`: the same for declarations

## Main results

* `Composed.confined`: every composed move is confined, however it ends
* `scopes_inLoopScope`: a loop leaves the scopes as they were
* `Tree.Derived.walk_loop`: the walk of a loop leaves the declarations as they were
-/

namespace BlockLang

/-! ## Scopes -/

namespace Scopes

variable {outer s : Scopes}

/-- One loop more is open than in `outer`, and everything around it is as there. -/
def Inside (outer s : Scopes) : Prop :=
  ∃ table, s = { outer with loops := table :: outer.loops }

theorem inside_enter (outer : Scopes) : Inside outer outer.enter := ⟨.empty, rfl⟩

theorem Inside.declare (h : Inside outer s) (name : String) (v : Variable) :
    Inside outer (s.declare name v) := by
  obtain ⟨table, rfl⟩ := h
  exact ⟨table.insert name v, rfl⟩

theorem Inside.leave? (h : Inside outer s) : ∃ removed, s.leave? = some (removed, outer) := by
  obtain ⟨table, rfl⟩ := h
  exact ⟨table.values, rfl⟩

theorem Inside.restore (h : Inside outer s) : s.restore outer.depth = outer := by
  obtain ⟨table, rfl⟩ := h
  simp [Scopes.restore, depth]

end Scopes

namespace Analyser

variable {α : Type} {m body : Analyser α} {s : AnalyserState} {outer : Scopes}

/-- Inside a loop, the move changes nothing but the scope of the loop, however it ends. -/
def Confined (m : Analyser α) : Prop :=
  ∀ (outer : Scopes) (s : AnalyserState), outer.Inside s.scopes →
    Ensures m (fun _ t => outer.Inside t.scopes) (fun _ t => outer.Inside t.scopes) s

theorem scopes_leaveLoop (h : outer.Inside s.scopes) : (leaveLoop s).scopes = outer := by
  obtain ⟨removed, h⟩ := h.leave?
  simp [leaveLoop, h, AnalyserState.notify]

/-- A loop leaves the scopes as they were, whether its body answers or stops. -/
theorem scopes_inLoopScope (h : Confined body) (s : AnalyserState) :
    Ensures (inLoopScope body) (fun _ t => t.scopes = s.scopes) (fun _ t => t.scopes = s.scopes)
      s := by
  refine ensures_inLoopScope.mpr ((h s.scopes (enterLoop s) s.scopes.inside_enter).imp ?_ ?_)
  · exact fun a t ht => scopes_leaveLoop ht
  · exact fun stop t ht => ht.restore

theorem Confined.of_same
    (h : ∀ s, Ensures m (fun _ t => t.scopes = s.scopes) (fun _ t => t.scopes = s.scopes) s) :
    Confined m := fun _ s hs =>
  (h s).imp (fun _ _ same => same ▸ hs) fun _ _ same => same ▸ hs

/-- A composed move is confined. -/
theorem Composed.confined (h : Composed m) : Confined m := by
  -- Induction on how the move is put together: only declarations and loops touch the scopes.
  induction h with
  | pure | tooDeep | lookahead | lookingAt | typeOf | refuse | mismatch | beginChain | beginTerm
  | recordTerm => exact .of_same fun s => rfl
  | bind _ _ ihm ihf =>
    intro outer s hs
    exact ensures_bind.mpr ((ihm outer s hs).answer fun a t ht => ihf a outer t ht)
  | accept wanted =>
    exact .of_same fun s => ensures_accept (fun _ _ _ _ => rfl) (fun _ _ _ _ => rfl) fun _ => rfl
  | requireDeclared =>
    refine .of_same fun s => ensures_requireDeclared.mpr ?_
    split
    · split <;> rfl
    · rfl
  | declare v =>
    intro outer s hs
    exact ensures_declare.mpr (hs.declare _ _)
  | checkSum join =>
    refine .of_same fun s => ensures_checkSum.mpr ?_
    split <;> rfl
  | inFreshChain _ ih =>
    intro outer s hs
    exact ensures_inFreshChain.mpr (ih outer { s with chain := .fresh } hs)
  | inLoopScope _ ih => exact .of_same (scopes_inLoopScope ih)
  | within p _ ih =>
    intro outer s hs
    exact ensures_within.mpr (ih outer (s.emit (.begin p.name)) hs)

end Analyser

/-! ## Declarations -/

namespace Declarations

variable {outer δ : Declarations}

/-- One loop more is open than in `outer`, and everything around it is as there. -/
def Inside (outer δ : Declarations) : Prop :=
  ∃ log, δ = { outer with loops := log :: outer.loops }

theorem inside_enter (outer : Declarations) : Inside outer outer.enter := ⟨[], rfl⟩

theorem Inside.declare (h : Inside outer δ) (v : Variable) : Inside outer (δ.declare v) := by
  obtain ⟨log, rfl⟩ := h
  exact ⟨log ++ [v], rfl⟩

theorem Inside.leave (h : Inside outer δ) : δ.leave = outer := by
  obtain ⟨log, rfl⟩ := h
  rfl

end Declarations

namespace Tree

variable {outer δ ε : Declarations} {parent : Production} {children : List Tree}

/-- Inside a loop, the walk of some trees changes nothing but what the loop declares. -/
theorem inside_walkAll
    (parts : ∀ c ∈ children, ∀ {outer δ ε : Declarations}, outer.Inside δ →
      walk parent δ c = some ε → outer.Inside ε)
    (hδ : outer.Inside δ) (h : walkAll parent δ children = some ε) : outer.Inside ε := by
  induction children generalizing δ with
  | nil => exact Option.some.inj h ▸ hδ
  | cons c rest ih =>
    rw [walkAll, Option.bind_eq_some_iff] at h
    obtain ⟨between, hc, hr⟩ := h
    exact ih (fun c hc => parts c (List.mem_cons_of_mem _ hc))
      (parts c List.mem_cons_self hδ hc) hr

/-- Inside a loop, the walk of a derivation changes nothing but what the loop declares. -/
theorem Derived.inside_walk {d : Tree} (hd : d.Derived) (hδ : outer.Inside δ)
    (h : walk parent δ d = some ε) : outer.Inside ε := by
  induction hd generalizing parent outer δ ε with
  | leaf t =>
    rw [walk, Option.ite_none_left_eq_some] at h
    exact Option.some.inj h.2 ▸ hδ
  | node p children _ _ ih =>
    have all {q : Production} {outer δ ε : Declarations} (hδ : outer.Inside δ)
        (h : walkAll q δ children = some ε) : outer.Inside ε :=
      inside_walkAll (fun c hc _ _ _ hδ h => ih c hc hδ h) hδ h
    -- An assignment declares inside the loop, and an inner loop is gone after its walk.
    cases p with
    | expression =>
      rw [walk, Option.ite_none_left_eq_some] at h
      exact all hδ h.2
    | assignmentStatement =>
      simp only [walk, Option.bind_eq_bind, Option.bind_eq_some_iff] at h
      obtain ⟨between, hb, v, -, he⟩ := h
      exact Option.some.inj he ▸ (all hδ hb).declare v
    | forStatement =>
      simp only [walk, Option.map_eq_some_iff] at h
      obtain ⟨inside, hi, rfl⟩ := h
      rw [(all δ.inside_enter hi).leave]
      exact hδ
    | _ => exact all hδ h

/-- The walk of a loop leaves the declarations as they were. -/
theorem Derived.walk_loop (hd : (Tree.node .forStatement children).Derived)
    (h : walk parent δ (Tree.node .forStatement children) = some ε) : ε = δ := by
  simp only [walk, Option.map_eq_some_iff] at h
  obtain ⟨inside, hi, rfl⟩ := h
  have parts := (derived_node_iff.mp hd).2
  exact (inside_walkAll (fun c hc _ _ _ hδ h => (parts c hc).inside_walk hδ h) δ.inside_enter
    hi).leave

end Tree

end BlockLang
