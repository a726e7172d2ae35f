import BlockLang.Proofs.Grammar.SyntaxErrors
import BlockLang.Proofs.Scoping.Account

/-!
# Declared before use

No analysis accepts an identifier that stands for a value unless a declaration of it is live, and no
analysis refuses one for want of a declaration if one is live. Targets of assignments and names of
procedures do not stand for values, and none is ever refused for want of a declaration.

## Main definitions

* `Undeclared a f before t`: the fault of an analysis is that the token `t` was not declared
* `DeclaredBeforeUse a`: what stands for a value in an analysis is declared before

## Main results

* `identifiers_declared_before_use`: so it is in every analysis
-/

namespace BlockLang

/-- The fault of an analysis is that an identifier was not declared. It is reported at the
identifier, which is the lookahead and would stand for a value in the innermost open production. No
declaration of it is live, and a program may go on with it. -/
structure Undeclared (a : Analysis Unit) (f : Fault) (before : List Event) (t : Token) : Prop where
  lookahead_eq : a.lookahead = some t
  identifier : t.type = .identifier
  reported : ∃ after, a.events.toList = before ++ .error t (.ofLink f.root) :: after
  errorFree : ErrorFree before
  root_eq : f.root = (Cause.undeclared t.value).link t
  not_live : ¬Live before t.value
  innermost : ∃ p : Production, p.reads ∧ (openProductions before).getLast? = some p.name
  viable : ∃ rest, IsProgram (accepted a.events.toList ++ t :: rest)

/-- What stands for a value in an analysis is declared before: an identifier that is accepted inside
a factor, a condition or a list of arguments has a live declaration, and one that is refused for
want of a declaration has none. -/
structure DeclaredBeforeUse (a : Analysis Unit) : Prop where
  live : ∀ before t after, a.events.toList = before ++ .terminal t :: after →
    t.type = .identifier → (∃ p : Production, p.reads ∧ p.name ∈ openProductions before) →
    Live before t.value
  undeclared : ∀ f, a.outcome = .error (.fault f) → f.root.kind = .undeclared →
    ∃ before t, Undeclared a f before t

variable {first : Token} {input : TokenStream} {t : AnalyserState} {stop origin : Stop}
  {es before said : List Event} {productions : List String}

/-- An identifier that stands for a value in a guarded trace has a live declaration. -/
theorem Guarded.live {after : List Event} {t : Token} (h : Guarded [] .empty es)
    (split : es = before ++ .terminal t :: after) (identifier : t.type = .identifier)
    (inside : ∃ p : Production, p.reads ∧ p.name ∈ openProductions before) :
    Live before t.value := by
  subst split
  have visible := (guarded_append.mp h).2.1
  obtain ⟨p, reads, opened⟩ := inside
  exact (live_iff_lookup before t.value).mpr
    (visible t rfl identifier ⟨p, reads, List.mem_reverse.mp opened⟩)

theorem Logged.guarded (h : Logged [] .empty (.start first input) es t) :
    Guarded [] .empty t.trace := by
  rw [h.trace_eq, AnalyserState.trace_start, List.nil_append]
  exact h.recorded.guarded

/-- The trace of a program that stopped is guarded to its end. -/
theorem Lost.guarded (h : Lost [] .empty (.start first input) stop t before origin said
    productions) : Guarded [] .empty t.trace := by
  have accounts := h.accounts
  have events : t.trace = _ := accounts.events_eq
  rw [events]
  -- Nothing is accepted after the stop arose.
  refine guarded_append.mpr ⟨h.recorded.guarded, guarded_of_silent fun e he token terminal => ?_⟩
  subst terminal
  rcases accounts.left_kinds _ he with error | finish
  · cases error
  · cases finish

/-- What a program says that refused an identifier for want of a declaration. -/
theorem Lost.undeclared {limit : Nat} {f : Fault}
    (h : Lost [] .empty (.start first input) (.fault f) t before origin said productions)
    (run : program limit (.start first input) = .error (.fault f) t)
    (undeclared : f.root.kind = .undeclared) :
    Undeclared (.ofState (.error (.fault f)) t) f before t.lookahead := by
  obtain ⟨token, cause, rfl, rfl, stands⟩ := h.unwinds.exists_cause
  have root_eq := h.unwinds.root_eq
  rw [root_eq] at undeclared
  -- Only a mismatch may stand anywhere else than at the lookahead.
  obtain rfl : token = t.lookahead := by
    refine stands.resolve_left fun mismatch => ?_
    cases mismatch.symm.trans undeclared
  obtain ⟨identifier, unknown, same, p, reads, innermost⟩ := h.missing _ rfl undeclared
  rw [List.append_nil] at innermost
  have opens := h.unwinds.opens []
  rw [List.append_nil] at opens
  refine ⟨rfl, identifier, ?_, h.unwinds.errorFree, ?_, ?_, ⟨p, reads, ?_⟩, ?_⟩
  · rw [root_eq]
    exact ⟨_, h.accounts.events_eq⟩
  · rw [root_eq]
    exact congrArg Fault.root same
  · rw [live_iff_lookup, not_not]
    exact unknown
  · rw [openProductions, opens, List.getLast?_reverse]
    exact innermost
  · exact exists_isProgram_lookahead run (root_eq ▸ undeclared)

/-- In every analysis, however it ends, what stands for a value is declared before. -/
theorem identifiers_declared_before_use (limit : Nat) (stream : TokenStream) :
    DeclaredBeforeUse (analyseWithin limit stream) := by
  refine analyseWithin_cases (P := DeclaredBeforeUse) (fun e => ?_) (fun _ _ es t h => ?_)
    fun _ _ stop t before origin said productions run h => ?_
  · refine ⟨fun before t after split => ?_, nofun⟩
    exact absurd split.symm (List.append_ne_nil_of_right_ne_nil before (List.cons_ne_nil _ after))
  · exact ⟨fun _ _ _ => h.guarded.live, nofun⟩
  · refine ⟨fun _ _ _ => h.guarded.live, fun f hf undeclared => ?_⟩
    obtain rfl : stop = .fault f := Except.error.inj hf
    exact ⟨before, t.lookahead, h.undeclared run undeclared⟩

theorem undeclared_undeclaredCondition :
    ∃ before t, Undeclared (analyse undeclaredCondition) undeclaredFault before t :=
  (identifiers_declared_before_use _ undeclaredCondition).undeclared _ (by rfl) (by rfl)

end BlockLang
