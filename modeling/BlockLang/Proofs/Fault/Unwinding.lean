import BlockLang.Proofs.Run.Composed

/-!
# Unwinding

What a run adds to the trace. A move that answers adds a settled piece: no errors, and every
production it begins it also ends. A move that stops adds a piece that leaves some productions open,
then the fault where it arose, and then, from the innermost of the open productions outward, what
each of them says when the stop passes through it.

## Main definitions

* `openAfter`, `openProductions`: the productions that a trace begins and does not end
* `Settled`: a piece of a trace without errors and without open ends
* `unwinding`: what productions say when a stop passes through them
* `Stop.Arises`: how a stop begins
* `Unwound`: the trace of a move that stopped

## Main results

* `Analyser.Composed.orderly`: a composed move settles or unwinds
-/

namespace BlockLang

/-- The productions open after a trace, the innermost first, if some were open before it. -/
def openAfter : List String → List Event → List String
  | stack, [] => stack
  | stack, .begin p :: rest => openAfter (p :: stack) rest
  | stack, .finish _ :: rest => openAfter stack.tail rest
  | stack, .terminal _ :: rest | stack, .add _ :: rest | stack, .remove _ :: rest
  | stack, .error _ _ :: rest => openAfter stack rest

/-- The productions that a trace begins and does not end, the outermost first. -/
def openProductions (events : List Event) : List String := (openAfter [] events).reverse

theorem openAfter_append (stack : List String) (es fs : List Event) :
    openAfter stack (es ++ fs) = openAfter (openAfter stack es) fs := by
  induction es generalizing stack with
  | nil => rfl
  | cons e es ih => cases e <;> simp [openAfter, ih]

/-- The trace tells of no error. -/
def ErrorFree (events : List Event) : Prop := ∀ e ∈ events, e.kind ≠ .error

theorem ErrorFree.nil : ErrorFree [] := by simp [ErrorFree]

theorem ErrorFree.append {es fs : List Event} (he : ErrorFree es) (hf : ErrorFree fs) :
    ErrorFree (es ++ fs) := by
  intro e h
  rcases List.mem_append.mp h with h | h
  · exact he e h
  · exact hf e h

/-- The trace tells of no error and ends all that it begins. -/
structure Settled (events : List Event) : Prop where
  errorFree : ErrorFree events
  closed : ∀ stack, openAfter stack events = stack

namespace Settled

theorem nil : Settled [] := ⟨.nil, fun _ => rfl⟩

theorem append {es fs : List Event} (he : Settled es) (hf : Settled fs) : Settled (es ++ fs) :=
  ⟨he.errorFree.append hf.errorFree, fun stack => by rw [openAfter_append, he.closed, hf.closed]⟩

theorem terminal (t : Token) : Settled [.terminal t] :=
  ⟨by simp [ErrorFree, Event.kind], fun _ => rfl⟩

theorem add (v : Variable) : Settled [.add v] :=
  ⟨by simp [ErrorFree, Event.kind], fun _ => rfl⟩

theorem removes (vs : List Variable) : Settled (vs.map Event.remove) := by
  constructor
  · simp [ErrorFree, Event.kind]
  · intro stack
    induction vs with
    | nil => rfl
    | cons v vs ih => simpa [openAfter] using ih

/-- A production around a settled piece. -/
theorem bracket {events : List Event} (h : Settled events) (p : String) :
    Settled (.begin p :: events ++ [.finish p]) := by
  constructor
  · have hb : ErrorFree [.begin p] := by simp [ErrorFree, Event.kind]
    have hf : ErrorFree [.finish p] := by simp [ErrorFree, Event.kind]
    exact (hb.append h.errorFree).append hf
  · intro stack
    simp [openAfter, openAfter_append, h.closed]

end Settled

/-! ## Stops on their way out -/

/-- What a stop has become after it passed through productions, the innermost first. -/
def Stop.throughAll (lookahead : Token) (stop : Stop) (productions : List String) : Stop :=
  productions.foldl (fun stop p => stop.through p lookahead) stop

/-- What productions say when a stop passes through them, the innermost first. -/
def unwinding (lookahead : Token) : Stop → List String → List Event
  | _, [] => []
  | stop, p :: outer =>
    stop.farewell p lookahead ++ unwinding lookahead (stop.through p lookahead) outer

theorem unwinding_concat (lookahead : Token) (stop : Stop) (productions : List String)
    (p : String) :
    unwinding lookahead stop (productions ++ [p]) =
      unwinding lookahead stop productions ++
        (stop.throughAll lookahead productions).farewell p lookahead := by
  induction productions generalizing stop with
  | nil => simp [unwinding, Stop.throughAll]
  | cons q productions ih => simp [unwinding, ih, Stop.throughAll]

/-- How a stop begins, and what the trace tells of it then. A fault other than a mismatch stands at
the lookahead. -/
inductive Stop.Arises (lookahead : Token) : Stop → List Event → Prop
  | fault (token : Token) (cause : Cause) (h : cause.kind = .mismatch ∨ token = lookahead) :
      Arises lookahead (.fault (.ofLink (cause.link token)))
        [.error token (.ofLink (cause.link token))]
  | lexical (e : LexicalError) : Arises lookahead (.lexical e) []
  | tooDeep : Arises lookahead .tooDeep []

/-- The trace from `s` to `t` of a move that stopped: an error-free piece that leaves `productions`
open, the stop where it arose, and its way out through them. -/
structure Unwinds (s : AnalyserState) (stop : Stop) (t : AnalyserState) (before : List Event)
    (origin : Stop) (first : List Event) (productions : List String) : Prop where
  errorFree : ErrorFree before
  opens : ∀ stack, openAfter stack before = productions ++ stack
  arises : origin.Arises t.lookahead first
  stop_eq : stop = origin.throughAll t.lookahead productions
  trace_eq : t.trace = s.trace ++ before ++ first ++ unwinding t.lookahead origin productions

/-- A stop that has just begun. -/
theorem Unwinds.of_arises {s t : AnalyserState} {stop : Stop} {before first : List Event}
    (h : Settled before) (arises : stop.Arises t.lookahead first)
    (trace_eq : t.trace = s.trace ++ before ++ first) : Unwinds s stop t before stop first [] where
  errorFree := h.errorFree
  opens := by simpa using h.closed
  arises := arises
  stop_eq := rfl
  trace_eq := by simpa [unwinding] using trace_eq

/-- One more production around the move. -/
theorem Unwinds.within {s t : AnalyserState} {stop origin : Stop} {p : String}
    {before first : List Event} {productions : List String}
    (h : Unwinds (s.emit (.begin p)) stop t before origin first productions) :
    Unwinds s (stop.through p t.lookahead) (t.abandon p stop) (.begin p :: before) origin first
      (productions ++ [p]) where
  errorFree := by
    intro e he
    rcases List.mem_cons.mp he with rfl | he
    · simp [Event.kind]
    · exact h.errorFree e he
  opens stack := by simp [openAfter, h.opens]
  arises := h.arises
  stop_eq := by simp [h.stop_eq, Stop.throughAll]
  trace_eq := by simp [h.trace_eq, unwinding_concat, ← h.stop_eq]

/-- The move from `s` to `t` stopped and unwound the productions that it had open. -/
def Unwound (s : AnalyserState) (stop : Stop) (t : AnalyserState) : Prop :=
  ∃ before origin first productions, Unwinds s stop t before origin first productions

namespace Unwound

variable {s t : AnalyserState} {stop : Stop}

/-- Only the traces and the lookahead count. -/
theorem congr {r u : AnalyserState} (h : Unwound s stop t) (hr : r.trace = s.trace)
    (hu : u.trace = t.trace) (hl : u.lookahead = t.lookahead) : Unwound r stop u := by
  obtain ⟨before, origin, first, productions, h⟩ := h
  exact ⟨before, origin, first, productions, h.errorFree, h.opens, hl ▸ h.arises,
    hl ▸ h.stop_eq, by rw [hu, hr, hl, h.trace_eq]⟩

/-- A stop that has just begun. -/
theorem of_arises {before first : List Event} (h : Settled before)
    (arises : stop.Arises t.lookahead first) (trace_eq : t.trace = s.trace ++ before ++ first) :
    Unwound s stop t :=
  ⟨before, stop, first, [], .of_arises h arises trace_eq⟩

/-- A settled piece in front. -/
theorem after {r : AnalyserState} {events : List Event} (settled : Settled events)
    (trace_eq : s.trace = r.trace ++ events) (h : Unwound s stop t) : Unwound r stop t := by
  obtain ⟨before, origin, first, productions, h⟩ := h
  refine ⟨events ++ before, origin, first, productions, settled.errorFree.append h.errorFree,
    fun stack => ?_, h.arises, h.stop_eq, ?_⟩
  · rw [openAfter_append, settled.closed, h.opens]
  · simp [h.trace_eq, trace_eq]

/-- One more production around the move. -/
theorem within (p : String) (h : Unwound (s.emit (.begin p)) stop t) :
    Unwound s (stop.through p t.lookahead) (t.abandon p stop) := by
  obtain ⟨before, origin, first, productions, h⟩ := h
  exact ⟨_, _, _, _, h.within⟩

end Unwound

namespace Analyser

variable {α : Type}

/-- A move that answers adds a settled piece to the trace, and one that stops unwinds. -/
def Orderly (m : Analyser α) : Prop :=
  ∀ s, Ensures m (fun _ t => ∃ events, Settled events ∧ t.trace = s.trace ++ events)
    (fun stop t => Unwound s stop t) s

/-- The trace is left as it is. -/
theorem settled_self {s t : AnalyserState} (h : t.trace = s.trace) :
    ∃ events, Settled events ∧ t.trace = s.trace ++ events :=
  ⟨[], .nil, by simpa using h⟩

/-- A refusal stops a move that has added nothing. -/
theorem unwound_rejectAt {token : Token} {cause : Cause} {Q : α → AnalyserState → Prop}
    {s : AnalyserState} (h : cause.kind = .mismatch ∨ token = s.lookahead) :
    Ensures (rejectAt (α := α) token cause) Q (fun stop t => Unwound s stop t) s := by
  rw [ensures_rejectAt]
  exact .of_arises .nil (.fault token cause h) (by simp)

/-- A composed move settles or unwinds. -/
theorem Composed.orderly {m : Analyser α} (h : Composed m) : Orderly m := by
  induction h with
  -- These moves leave the trace as it is.
  | pure | lookahead | lookingAt | typeOf | beginChain | beginTerm | recordTerm =>
    exact fun s => settled_self rfl
  | bind _ _ ihm ihf =>
    intro s
    simp only [ensures_bind]
    -- What the first move settled stands before what the second one settles or unwinds.
    refine (ihm s).answer fun a t ht => ?_
    obtain ⟨es, hes, ht⟩ := ht
    refine (ihf a t).imp ?_ ?_
    · rintro b u ⟨fs, hfs, hu⟩
      exact ⟨es ++ fs, hes.append hfs, by simp [hu, ht]⟩
    · exact fun stop u hu => hu.after hes ht
  | tooDeep => exact fun s => .of_arises .nil .tooDeep (by simp)
  | accept wanted =>
    -- A token that was taken is told of, even if the stream breaks behind it.
    refine fun s => ensures_accept (fun next input _ _ => ?_) (fun e input _ _ => ?_) fun _ => ?_
    · exact ⟨_, .terminal s.lookahead, by simp⟩
    · exact .of_arises (.terminal s.lookahead) (.lexical e) (by simp [AnalyserState.trace,
        AnalyserState.emit])
    · exact unwound_rejectAt (.inr rfl)
  | refuse _ =>
    intro s
    rw [ensures_reject]
    exact unwound_rejectAt (.inr rfl)
  | mismatch token m => exact fun s => unwound_rejectAt (.inl rfl)
  | requireDeclared =>
    intro s
    rw [ensures_requireDeclared]
    split
    · split
      · exact settled_self rfl
      · exact unwound_rejectAt (.inr rfl)
    · exact settled_self rfl
  | declare v => exact fun s => ⟨_, .add v, AnalyserState.trace_emit ..⟩
  | checkSum join =>
    intro s
    rw [ensures_checkSum]
    split
    · exact unwound_rejectAt (.inl rfl)
    · exact settled_self rfl
  | inFreshChain _ ih =>
    intro s
    rw [ensures_inFreshChain]
    exact (ih { s with chain := .fresh }).imp (fun a t h => h) fun stop t h => h.congr rfl rfl rfl
  | inLoopScope _ ih =>
    intro s
    rw [ensures_inLoopScope]
    -- A scope that is closed drops its variables; one that a stop leaves drops them unsaid.
    refine (ih (enterLoop s)).imp ?_ fun stop t h => h.congr rfl rfl rfl
    rintro a t ⟨es, hes, ht⟩
    obtain ⟨removed, hr⟩ := AnalyserState.trace_leaveLoop t
    exact ⟨es ++ removed.map Event.remove, hes.append (.removes removed), by simp [hr, ht]⟩
  | within p _ ih =>
    intro s
    rw [ensures_within]
    -- The begin and the end of the production stand around a settled piece.
    refine (ih _).imp ?_ fun stop t h => h.within p.name
    rintro a t ⟨es, hes, ht⟩
    exact ⟨_, hes.bracket p.name, by simp [ht]⟩

end Analyser

end BlockLang
