import BlockLang.Proofs.Fault.Chain
import BlockLang.Proofs.Scoping.Log

/-!
# The trace accounts for the scopes

However an analysis ends, its trace determines its scopes: the replay of the trace ends with the
global variables of the analysis, and with no loop open. Every loop whose production came to its end
tells right behind it what it drops, and nothing else is dropped. In particular, the loops that a
fault or a lexical error leaves drop their variables without a word.

## Main definitions

* `Accounts a settled left`: how the trace of an analysis accounts for its scopes

## Main results

* `trace_accounts_for_scopes`: the trace of every analysis does
-/

namespace BlockLang

/-- The production that an event ends. -/
def Event.finished? : Event → Option String
  | finish p => some p
  | _ => none

/-- The trace of an analysis accounts for its scopes. It is settled up to where the analysis
stopped: what stands there ends productions that came to their end, and each loop among them tells
right behind its end what it drops. What is left tells of nothing but the fault, if there is one,
and of the productions that are left by it. -/
structure Accounts (a : Analysis Unit) (settled left : List Event) : Prop where
  events_eq : a.events.toList = settled ++ left
  scopes_eq : a.scopes = ⟨⟨summary (replay .empty a.events.toList).globals⟩, []⟩
  loops_eq : (replay .empty a.events.toList).loops = []
  removals : settled = withRemovals .empty (withoutRemovals settled)
  errorFree : ErrorFree settled
  left_kinds : ∀ e ∈ left, e.kind = .error ∨ e.kind = .finish
  left_productions : left.filterMap Event.finished? = openAfter [] settled
  of_ok : a.outcome = .ok () → left = []
  of_fault : ∀ f, a.outcome = .error (.fault f) →
    ∃ token rest, left = .error token (.ofLink f.root) :: rest
  of_lexical : ∀ e, a.outcome = .error (.lexical e) → ErrorFree left ∧
    (settled = [] ∧ a.lookahead = none ∨
      ∃ front token, settled = front ++ [.terminal token] ∧ a.lookahead = some token)

variable {first : Token} {input : TokenStream} {t : AnalyserState} {stop origin : Stop}
  {es before said : List Event} {productions : List String}

/-! ## Stops on their way out -/

/-- What productions say when a stop passes through them ends each of them. -/
theorem filterMap_finished?_unwinding (lookahead : Token) (stop : Stop)
    (productions : List String) :
    (unwinding lookahead stop productions).filterMap Event.finished? = productions := by
  induction productions generalizing stop with
  | nil => rfl
  | cons p productions ih =>
    rw [unwinding, List.filterMap_append, ih]
    cases stop <;> rfl

theorem kind_of_mem_unwinding {lookahead : Token} {stop : Stop} {productions : List String}
    {e : Event} (he : e ∈ unwinding lookahead stop productions) :
    e.kind = .error ∨ e.kind = .finish := by
  induction productions generalizing stop with
  | nil => cases he
  | cons p productions ih =>
    rcases List.mem_append.mp he with he | he
    · cases stop <;> simp only [Stop.farewell, List.mem_cons, List.not_mem_nil, or_false] at he
      · rcases he with rfl | rfl
        · exact .inl rfl
        · exact .inr rfl
      all_goals
        subst he
        exact .inr rfl
    · exact ih he

/-- A stop on its way out closes the loops among the productions. -/
theorem replay_unwinding (δ : Declarations) (lookahead : Token) (stop : Stop)
    (productions : List String) :
    replay δ (unwinding lookahead stop productions) = replay δ (productions.map .finish) := by
  induction productions generalizing δ stop with
  | nil => rfl
  | cons p productions ih =>
    rw [unwinding, replay_append, ih, List.map_cons, replay_cons]
    cases stop <;> rfl

/-- Only an error is told of when a stop begins. -/
theorem Stop.Arises.kind_eq {lookahead : Token} {e : Event} (h : stop.Arises lookahead said)
    (he : e ∈ said) : e.kind = .error := by
  cases h with
  | fault token cause =>
    obtain rfl := List.mem_singleton.mp he
    rfl
  | lexical | tooDeep => cases he

/-- How a stop begins ends no production. -/
theorem Stop.Arises.filterMap_finished?_eq {lookahead : Token} (h : stop.Arises lookahead said) :
    said.filterMap Event.finished? = [] := by
  cases h <;> rfl

/-- How a stop begins declares nothing. -/
theorem Stop.Arises.replay_eq {lookahead : Token} (h : stop.Arises lookahead said)
    (δ : Declarations) : replay δ said = δ := by
  cases h <;> rfl

/-- A lexical error tells of no errors on its way out. -/
theorem errorFree_unwinding_lexical (lookahead : Token) (e : LexicalError)
    (productions : List String) : ErrorFree (unwinding lookahead (.lexical e) productions) := by
  induction productions with
  | nil => exact .nil
  | cons p productions ih =>
    have farewell : ErrorFree [.finish p] := by simp [ErrorFree, Event.kind]
    exact farewell.append ih

/-! ## Analyses -/

theorem accounts_unlexed (e : LexicalError) : Accounts (.unlexed .empty e) [] [] where
  events_eq := rfl
  scopes_eq := Declarations.scopes_of_depth (δ := .empty) rfl
  loops_eq := rfl
  removals := rfl
  errorFree := .nil
  left_kinds e he := by cases he
  left_productions := rfl
  of_ok h := by cases h
  of_fault f h := by cases h
  of_lexical e h := ⟨.nil, .inl ⟨rfl, rfl⟩⟩

/-- Scopes of a replay without an open loop hold what it declared globally. -/
theorem scopes_of_replay {events : List Event} (hs : t.scopes = (replay .empty events).scopes)
    (depth : (replay .empty events).depth = 0) :
    t.scopes = ⟨⟨summary (replay .empty events).globals⟩, []⟩ ∧
      (replay .empty events).loops = [] :=
  ⟨hs.trans (Declarations.scopes_of_depth depth), List.length_eq_zero_iff.mp depth⟩

/-- The trace of a program without a fault accounts for the scopes. -/
theorem Logged.accounts (h : Logged [] .empty (.start first input) es t) :
    Accounts (.ofState (.ok ()) t) es [] := by
  have trace : t.trace = es := by simpa using h.trace_eq
  obtain ⟨scopes, loops⟩ := scopes_of_replay h.scopes_eq h.depth_eq
  rw [← trace] at scopes loops
  exact {
    events_eq := by rw [List.append_nil]; exact trace
    scopes_eq := scopes
    loops_eq := loops
    removals := h.recorded.removals
    errorFree := h.settled.errorFree
    left_kinds := fun e he => by cases he
    left_productions := (h.settled.closed []).symm
    of_ok := fun _ => rfl
    of_fault := fun f he => by cases he
    of_lexical := fun e he => by cases he }

/-- The trace of a program that stopped accounts for the scopes. -/
theorem Lost.accounts (h : Lost [] .empty (.start first input) stop t before origin said
    productions) :
    Accounts (.ofState (.error stop) t) before
      (said ++ unwinding t.lookahead origin productions) := by
  have trace : t.trace = before ++ (said ++ unwinding t.lookahead origin productions) := by
    simpa using h.unwinds.trace_eq
  have replayed : replay .empty t.trace = replay .empty (before ++ productions.map .finish) := by
    rw [trace, replay_append, replay_append, h.unwinds.arises.replay_eq, replay_unwinding,
      replay_append]
  obtain ⟨scopes, loops⟩ := scopes_of_replay h.scopes_eq h.depth_eq
  rw [← replayed] at scopes loops
  refine {
    events_eq := trace
    scopes_eq := scopes
    loops_eq := loops
    removals := h.recorded.removals
    errorFree := h.unwinds.errorFree
    left_kinds := fun e he => ?kinds
    left_productions := ?left
    of_ok := nofun
    of_fault := fun f he => ?fault
    of_lexical := fun e he => ?lexical }
  case kinds =>
    rcases List.mem_append.mp he with he | he
    · exact .inl (h.unwinds.arises.kind_eq he)
    · exact kind_of_mem_unwinding he
  case left =>
    have opens := h.unwinds.opens []
    rw [List.append_nil] at opens
    rw [opens, List.filterMap_append, h.unwinds.arises.filterMap_finished?_eq, List.nil_append,
      filterMap_finished?_unwinding]
  case fault =>
    obtain rfl : stop = .fault f := Except.error.inj he
    obtain ⟨token, cause, rfl, rfl, -⟩ := h.unwinds.exists_cause
    rw [h.unwinds.root_eq]
    exact ⟨token, _, rfl⟩
  case lexical =>
    obtain rfl : stop = .lexical e := Except.error.inj he
    obtain ⟨rfl, rfl⟩ := h.unwinds.origin_eq_lexical
    obtain ⟨front, rfl⟩ := h.broken e rfl
    exact ⟨errorFree_unwinding_lexical _ _ _, .inr ⟨front, t.lookahead, rfl, rfl⟩⟩

/-- The trace of every analysis accounts for its scopes, however the analysis ends. -/
theorem trace_accounts_for_scopes (limit : Nat) (stream : TokenStream) :
    ∃ settled left, Accounts (analyseWithin limit stream) settled left := by
  refine analyseWithin_cases (P := fun a => ∃ settled left, Accounts a settled left)
    (fun e => ?_) (fun _ _ es t h => ?_) fun _ _ stop t before origin said productions _ h => ?_
  · exact ⟨[], [], accounts_unlexed e⟩
  · exact ⟨es, [], h.accounts⟩
  · exact ⟨before, _, h.accounts⟩

end BlockLang
