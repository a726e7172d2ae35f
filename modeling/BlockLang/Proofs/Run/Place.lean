import BlockLang.Proofs.Run.Composed

/-!
# Places in a stream

A place is a token to look at with the stream behind it. A run moves from place to place: it takes
every token between them once and in order, and the trace tells of each token that was taken.

## Main definitions

* `TokenStream.front n stream`: the first `n` deliveries
* `Place`, `Passes`: a lookahead with the stream behind it, and the tokens between two places
* `accepted`: the tokens that a trace tells of
* `Reaches`, `Breaks`: a run came to a place, or to an error of the stream
* `AnalyserState.start`: the state at the start of a stream

## Main results

* `Passes.front`, `exists_passes_of_front`: places and deliveries say the same
* `TokenStream.length_le_of_front`: a stream delivers no more tokens than it has items
* `Passes.unique`: there is one way to the end of the file
* `Analyser.Composed.steady`: a composed move takes the tokens in order
* `Analyser.ensures_accept_of_passes`: the token that comes next is taken
* `exists_run_of_ok`, `exists_run_of_fault`: the run behind an analysis
-/

namespace BlockLang

/-- The first deliveries of a stream. -/
def TokenStream.front : Nat → TokenStream → List Delivery
  | 0, _ => []
  | n + 1, stream => stream.pull.1 :: front n stream.pull.2

theorem TokenStream.front_succ (n : Nat) (stream : TokenStream) :
    stream.front (n + 1) = stream.pull.1 :: stream.pull.2.front n := rfl

/-- A token to look at, and the stream behind it. -/
abbrev Place := Token × TokenStream

/-- The tokens `ts` stand between two places. -/
def Passes : Place → List Token → Place → Prop
  | here, [], there => here = there
  | here, t :: ts, there =>
    here.1 = t ∧ ∃ next input, here.2.pull = (.ok next, input) ∧ Passes (next, input) ts there

theorem passes_append {here there : Place} {ts us : List Token} :
    Passes here (ts ++ us) there ↔ ∃ between, Passes here ts between ∧ Passes between us there := by
  induction ts generalizing here with
  | nil => simp [Passes]
  | cons t ts ih =>
    simp only [List.cons_append, Passes, ih]
    constructor
    · rintro ⟨ht, next, input, hp, between, h, h'⟩
      exact ⟨between, ⟨ht, next, input, hp, h⟩, h'⟩
    · rintro ⟨between, ⟨ht, next, input, hp, h⟩, h'⟩
      exact ⟨ht, next, input, hp, between, h, h'⟩

/-- The tokens up to a place are what the stream delivers. -/
theorem Passes.front {stream input : TokenStream} {first : Token} {ts : List Token} {there : Place}
    (h : Passes (first, input) ts there) (hp : stream.pull = (.ok first, input)) :
    stream.front (ts.length + 1) = (ts ++ [there.1]).map .ok := by
  induction ts generalizing stream first input with
  | nil =>
    obtain rfl : (first, input) = there := h
    simp [TokenStream.front, hp]
  | cons t ts ih =>
    obtain ⟨rfl, next, rest, hn, h⟩ := h
    rw [List.length_cons, TokenStream.front, hp, ih h hn]
    rfl

/-- What the stream delivers can be passed. -/
theorem exists_passes_of_front {stream : TokenStream} {ts : List Token} {last : Token}
    (h : stream.front (ts.length + 1) = (ts ++ [last]).map .ok) :
    ∃ first input, stream.pull = (.ok first, input) ∧
      ∃ rest, Passes (first, input) ts (last, rest) := by
  induction ts generalizing stream with
  | nil =>
    refine ⟨last, stream.pull.2, ?_, _, rfl⟩
    simpa [TokenStream.front, Prod.ext_iff] using h
  | cons t ts ih =>
    rw [List.length_cons, TokenStream.front, List.cons_append, List.map_cons, List.cons.injEq] at h
    obtain ⟨next, input, hp, rest, h'⟩ := ih h.2
    exact ⟨t, stream.pull.2, Prod.ext h.1 rfl, rest, rfl, next, input, hp, h'⟩

/-- A stream delivers no more tokens than it has items before it comes to the end of the file. -/
theorem TokenStream.length_le_of_front {stream : TokenStream} {w : List Token} {last : Delivery}
    (proper : ∀ t ∈ w, t.type ≠ .endOfFile)
    (h : stream.front (w.length + 1) = w.map .ok ++ [last]) : w.length ≤ stream.items.length := by
  induction w generalizing stream with
  | nil => exact Nat.zero_le _
  | cons t w ih =>
    obtain ⟨items, position⟩ := stream
    rw [List.length_cons, front, List.map_cons, List.cons_append, List.cons.injEq] at h
    cases items with
    | nil =>
      -- A stream without items delivers the end of the file.
      have ended : (TokenStream.mk [] position).endToken = t := Except.ok.inj h.1
      exact absurd (ended ▸ rfl) (proper t List.mem_cons_self)
    | cons item items =>
      exact Nat.succ_le_succ (ih (fun u hu => proper u (List.mem_cons_of_mem _ hu)) h.2)

/-- There is one way to pass to the end of the file. -/
theorem Passes.unique {here there end' : Place} {ts us : List Token} (h : Passes here ts there)
    (h' : Passes here us end') (hts : ∀ t ∈ ts, t.type ≠ .endOfFile)
    (hus : ∀ t ∈ us, t.type ≠ .endOfFile) (ht : there.1.type = .endOfFile)
    (hu : end'.1.type = .endOfFile) : ts = us := by
  induction ts generalizing here us with
  | nil =>
    obtain rfl : here = there := h
    -- The end of the file is here, so the other way takes no token either.
    cases us with
    | nil => rfl
    | cons u us => exact absurd (h'.1 ▸ ht) (hus u List.mem_cons_self)
  | cons t ts ih =>
    obtain ⟨rfl, next, input, hp, h⟩ := h
    cases us with
    | nil =>
      obtain rfl : here = end' := h'
      exact absurd hu (hts _ List.mem_cons_self)
    | cons u us =>
      obtain ⟨rfl, next', input', hp', h'⟩ := h'
      obtain ⟨hn, rfl⟩ := Prod.mk.inj (hp.symm.trans hp')
      cases hn
      rw [ih h h' (fun t ht => hts t (List.mem_cons_of_mem _ ht))
        fun u hu => hus u (List.mem_cons_of_mem _ hu)]

/-! ## Accepted tokens -/

/-- The token that an entry accepts. -/
def Event.accepted? : Event → Option Token
  | terminal t => some t
  | _ => none

/-- The tokens that a trace accepts, in order. -/
def accepted (events : List Event) : List Token := events.filterMap Event.accepted?

@[simp] theorem accepted_append (es fs : List Event) :
    accepted (es ++ fs) = accepted es ++ accepted fs := by
  simp [accepted]

@[simp] theorem accepted_begin (p : String) : accepted [.begin p] = [] := rfl

@[simp] theorem accepted_finish (p : String) : accepted [.finish p] = [] := rfl

@[simp] theorem accepted_terminal (t : Token) : accepted [.terminal t] = [t] := rfl

theorem accepted_terminal_cons (t : Token) (events : List Event) :
    accepted (.terminal t :: events) = t :: accepted events := rfl

theorem accepted_begin_cons (p : String) (events : List Event) :
    accepted (.begin p :: events) = accepted events := rfl

@[simp] theorem accepted_add (v : Variable) : accepted [.add v] = [] := rfl

@[simp] theorem accepted_error (t : Token) (f : Fault) : accepted [.error t f] = [] := rfl

@[simp] theorem accepted_removes (vs : List Variable) : accepted (vs.map Event.remove) = [] := by
  simp [accepted, Event.accepted?]

@[simp] theorem accepted_farewell (stop : Stop) (p : String) (lookahead : Token) :
    accepted (stop.farewell p lookahead) = [] := by
  cases stop <;> rfl

namespace AnalyserState

/-- The lookahead and the stream behind it. -/
def place (s : AnalyserState) : Place := (s.lookahead, s.input)

/-- The tokens accepted so far. -/
def accepted (s : AnalyserState) : List Token := BlockLang.accepted s.trace

@[simp] theorem accepted_emit (s : AnalyserState) (e : Event) :
    (s.emit e).accepted = s.accepted ++ BlockLang.accepted [e] := by
  simp [accepted]

@[simp] theorem accepted_advance (s : AnalyserState) (next : Token) (input : TokenStream) :
    (s.advance next input).accepted = s.accepted ++ [s.lookahead] := by
  simp [accepted]

@[simp] theorem accepted_leaveLoop (s : AnalyserState) :
    (Analyser.leaveLoop s).accepted = s.accepted := by
  obtain ⟨removed, h⟩ := trace_leaveLoop s
  simp [accepted, h]

@[simp] theorem accepted_abandon (s : AnalyserState) (p : String) (stop : Stop) :
    (s.abandon p stop).accepted = s.accepted := by
  simp [accepted]

@[simp] theorem place_leaveLoop (s : AnalyserState) : (Analyser.leaveLoop s).place = s.place := by
  simp [place]

end AnalyserState

/-- A run from `s` came to the place of `t` and told of the tokens on its way. -/
def Reaches (s t : AnalyserState) : Prop :=
  ∃ ts, Passes s.place ts t.place ∧ t.accepted = s.accepted ++ ts

/-- The tokens on the way are those that the run has told of. -/
theorem Reaches.passes {s t : AnalyserState} {w : List Token} (h : Reaches s t)
    (taken : t.accepted = s.accepted ++ w) : Passes s.place w t.place := by
  obtain ⟨ts, passes, same⟩ := h
  obtain rfl : ts = w := List.append_cancel_left (same.symm.trans taken)
  exact passes

/-- A run from `s` took the lookahead of `t`, behind which the stream gives an error. -/
def Breaks (s : AnalyserState) (e : LexicalError) (t : AnalyserState) : Prop :=
  ∃ ts input, Passes s.place ts (t.lookahead, input) ∧ input.pull = (.error e, t.input) ∧
    t.accepted = s.accepted ++ ts ++ [t.lookahead]

/-- How far a run came that stopped. -/
def Halts (s : AnalyserState) : Stop → AnalyserState → Prop
  | .lexical e, t => Breaks s e t
  | _, t => Reaches s t

theorem Reaches.of_eq {s t : AnalyserState} (hp : t.place = s.place)
    (ha : t.accepted = s.accepted) : Reaches s t :=
  ⟨[], hp.symm, by simpa using ha⟩

theorem Reaches.trans {r s t : AnalyserState} (h : Reaches r s) (h' : Reaches s t) :
    Reaches r t := by
  obtain ⟨ts, hp, ha⟩ := h
  obtain ⟨us, hp', ha'⟩ := h'
  exact ⟨ts ++ us, passes_append.mpr ⟨_, hp, hp'⟩, by simp [ha', ha]⟩

theorem Reaches.halts {r s t : AnalyserState} {stop : Stop} (h : Reaches r s)
    (h' : Halts s stop t) : Halts r stop t := by
  cases stop with
  | fault f => exact h.trans h'
  | tooDeep => exact h.trans h'
  | lexical e =>
    obtain ⟨ts, hp, ha⟩ := h
    obtain ⟨us, input, hp', he, ha'⟩ := h'
    exact ⟨ts ++ us, input, passes_append.mpr ⟨_, hp, hp'⟩, he, by simp [ha', ha]⟩

/-- Only places and accepted tokens count. -/
theorem Halts.congr {s t u : AnalyserState} {stop : Stop} (h : Halts s stop t)
    (hp : u.place = t.place) (ha : u.accepted = t.accepted) : Halts s stop u := by
  obtain ⟨hl, hi⟩ := Prod.ext_iff.mp hp
  cases stop with
  | fault f => simpa [Halts, Reaches, hp, ha] using h
  | tooDeep => simpa [Halts, Reaches, hp, ha] using h
  | lexical e =>
    simp only [AnalyserState.place] at hl hi
    simpa [Halts, Breaks, hl, hi, ha] using h

theorem halts_through {s t : AnalyserState} {stop : Stop} {p : String} {lookahead : Token} :
    Halts s (stop.through p lookahead) t ↔ Halts s stop t := by
  cases stop <;> rfl

namespace Analyser

variable {α : Type}

/-- A move takes the tokens of the stream in order. -/
def Steady (m : Analyser α) : Prop := ∀ s, Ensures m (fun _ t => Reaches s t) (Halts s) s

theorem halts_rejectAt {token : Token} {cause : Cause} {Q : α → AnalyserState → Prop}
    {s : AnalyserState} : Ensures (rejectAt (α := α) token cause) Q (Halts s) s := by
  rw [ensures_rejectAt]
  exact .of_eq rfl (by simp)

/-- A composed move takes the tokens in order. -/
theorem Composed.steady {m : Analyser α} (h : Composed m) : Steady m := by
  induction h with
  -- These moves stay where they are.
  | pure | lookahead | lookingAt | typeOf | beginChain | beginTerm | recordTerm | tooDeep =>
    exact fun s => .of_eq rfl rfl
  | bind _ _ ihm ihf =>
    intro s
    rw [ensures_bind]
    -- The tokens of the first move, and then those of the second.
    exact (ihm s).answer fun a t ht =>
      (ihf a t).imp (fun b u hu => ht.trans hu) fun stop u hu => ht.halts hu
  | accept wanted =>
    -- The lookahead is taken, or the stream breaks behind it, or it is refused where it stands.
    refine fun s => ensures_accept (fun next input _ hp => ?_) (fun e input _ hp => ?_) fun _ => ?_
    · exact ⟨[s.lookahead], ⟨rfl, next, input, hp, rfl⟩, by simp⟩
    · exact ⟨[], s.input, rfl, hp, by simp [AnalyserState.accepted, AnalyserState.trace,
        AnalyserState.emit]⟩
    · exact halts_rejectAt
  | refuse _ =>
    intro s
    rw [ensures_reject]
    exact halts_rejectAt
  | mismatch token m => exact fun s => halts_rejectAt
  | requireDeclared =>
    intro s
    rw [ensures_requireDeclared]
    split
    · split
      · exact .of_eq rfl rfl
      · exact halts_rejectAt
    · exact .of_eq rfl rfl
  | declare v =>
    intro s
    rw [ensures_declare]
    exact .of_eq rfl (by simp; rfl)
  | checkSum join =>
    intro s
    rw [ensures_checkSum]
    split
    · exact halts_rejectAt
    · exact .of_eq rfl rfl
  | inFreshChain _ ih =>
    intro s
    rw [ensures_inFreshChain]
    exact (ih { s with chain := .fresh }).imp (fun _ _ h => h) fun _ _ h => h.congr rfl rfl
  | inLoopScope _ ih =>
    intro s
    rw [ensures_inLoopScope]
    -- Closing the scope tells of dropped variables, but takes no token.
    refine (ih (enterLoop s)).imp (fun _ t h => ?_) fun _ _ h => h.congr rfl rfl
    exact h.trans (.of_eq t.place_leaveLoop t.accepted_leaveLoop)
  | within p _ ih =>
    intro s
    rw [ensures_within]
    have start : Reaches s (s.emit (.begin p.name)) := .of_eq rfl (by simp)
    refine (ih _).imp (fun _ t h => ?_) fun stop t h => ?_
    · exact (start.trans h).trans (.of_eq rfl (by simp))
    · exact halts_through.mpr ((start.halts h).congr rfl (by simp))

/-- The token that comes next is taken. -/
theorem ensures_accept_of_passes {s : AnalyserState} {token : Token} {w : List Token} {next : Place}
    {wanted : TokenType} {Q : Token → AnalyserState → Prop} {E : Stop → AnalyserState → Prop}
    (h : Passes s.place (token :: w) next) (hw : token.type = wanted)
    (taken : ∀ there : Place, Passes there w next → Q token (s.advance there.1 there.2)) :
    Ensures (accept wanted) Q E s := by
  obtain ⟨here, following, input, hp, rest⟩ := h
  obtain rfl : s.lookahead = token := here
  -- The stream has another token behind this one, so it is neither refused nor the last.
  refine ensures_accept (fun next' input' _ hp' => ?_) (fun e input' _ hp' => ?_)
    fun hne => absurd hw hne
  · cases hp.symm.trans hp'
    exact taken (following, input) rest
  · cases hp.symm.trans hp'

end Analyser

/-! ## From the start of a stream -/

/-- The state at the start of a stream. -/
def AnalyserState.start (first : Token) (input : TokenStream) : AnalyserState :=
  ⟨first, input, .empty, .fresh, #[], #[]⟩

@[simp] theorem AnalyserState.trace_start (first : Token) (input : TokenStream) :
    (start first input).trace = [] := rfl

@[simp] theorem AnalyserState.accepted_start (first : Token) (input : TokenStream) :
    (start first input).accepted = [] := rfl

variable {limit : Nat} {stream : TokenStream}

/-- A program is its first production, after which nothing but the end of the file may stand. -/
theorem program_apply (limit : Nat) (s : AnalyserState) :
    program limit s = match analyser limit .statementPart s with
      | .ok () t =>
        if t.lookahead.type = .endOfFile then .ok () t
        else Analyser.rejectAt t.lookahead (.trailing t.lookahead) t
      | .error stop t => .error stop t := by
  simp only [program, bind, EStateM.bind]
  cases analyser limit .statementPart s with
  | ok a t =>
    by_cases h : t.lookahead.type = .endOfFile
    · simp [Analyser.require, Analyser.lookingAt, bind, EStateM.bind, h, pure, EStateM.pure]
    · simp [Analyser.require, Analyser.lookingAt, bind, EStateM.bind, h, Analyser.reject]
  | error stop t => rfl

theorem program_eq_ok_iff {s t : AnalyserState} :
    program limit s = .ok () t ↔
      analyser limit .statementPart s = .ok () t ∧ t.lookahead.type = .endOfFile := by
  rw [program_apply]
  cases analyser limit .statementPart s with
  | ok a u =>
    by_cases h : u.lookahead.type = .endOfFile
    · simp only [h, if_true, EStateM.Result.ok.injEq, true_and]
      exact ⟨fun e => ⟨e, e ▸ h⟩, fun e => e.1⟩
    · simp only [h, if_false, Analyser.rejectAt, reduceCtorEq, EStateM.Result.ok.injEq, true_and,
        false_iff, not_and]
      exact fun e => e ▸ h
  | error stop u => simp

/-- A program fails in its first production, or at a token that trails behind it. -/
theorem program_eq_error_iff {s t : AnalyserState} {stop : Stop} :
    program limit s = .error stop t ↔
      analyser limit .statementPart s = .error stop t ∨
      ∃ u, analyser limit .statementPart s = .ok () u ∧ u.lookahead.type ≠ .endOfFile ∧
        Analyser.rejectAt (α := Unit) u.lookahead (.trailing u.lookahead) u = .error stop t := by
  rw [program_apply]
  cases analyser limit .statementPart s with
  | ok a u =>
    by_cases h : u.lookahead.type = .endOfFile
    · simp [h]
    · simp [h]
  | error e u => simp

theorem outcome_ofResult_eq_ok_iff {α : Type} {a : α} {r : EStateM.Result Stop AnalyserState α} :
    (Analysis.ofResult r).outcome = .ok a ↔ ∃ t, r = .ok a t := by
  cases r <;> simp [Analysis.ofResult, Analysis.ofState]

theorem outcome_ofResult_eq_error_iff {α : Type} {stop : Stop}
    {r : EStateM.Result Stop AnalyserState α} :
    (Analysis.ofResult r).outcome = .error stop ↔ ∃ t, r = .error stop t := by
  cases r <;> simp [Analysis.ofResult, Analysis.ofState]

/-- A stream that breaks at once has no run. -/
theorem analyseWithin_of_error {e : LexicalError} {input : TokenStream}
    (h : stream.pull = (.error e, input)) :
    analyseWithin limit stream = .unlexed .empty e := by
  simp [analyseWithin, runFrom, h]

/-- The run behind an analysis of a stream with a first token. -/
theorem analyseWithin_of_pull {first : Token} {input : TokenStream}
    (h : stream.pull = (.ok first, input)) :
    analyseWithin limit stream = .ofResult (program limit (.start first input)) := by
  simp [analyseWithin, runFrom, h, AnalyserState.start]

/-- The run behind an analysis without fault. -/
theorem exists_run_of_ok (h : (analyseWithin limit stream).outcome = .ok ()) :
    ∃ first input t, stream.pull = (.ok first, input) ∧
      program limit (.start first input) = .ok () t ∧
      analyseWithin limit stream = .ofState (.ok ()) t := by
  rcases hp : stream.pull with ⟨e | first, input⟩
  · simp [analyseWithin_of_error hp, Analysis.unlexed] at h
  · rw [analyseWithin_of_pull hp] at h ⊢
    obtain ⟨t, ht⟩ := outcome_ofResult_eq_ok_iff.mp h
    exact ⟨first, input, t, rfl, ht, congrArg Analysis.ofResult ht⟩

/-- The run behind an analysis that ended with a fault. -/
theorem exists_run_of_fault {f : Fault}
    (h : (analyseWithin limit stream).outcome = .error (.fault f)) :
    ∃ first input t, stream.pull = (.ok first, input) ∧
      program limit (.start first input) = .error (.fault f) t ∧
      analyseWithin limit stream = .ofState (.error (.fault f)) t := by
  rcases hp : stream.pull with ⟨e | first, input⟩
  · simp [analyseWithin_of_error hp, Analysis.unlexed] at h
  · rw [analyseWithin_of_pull hp] at h ⊢
    obtain ⟨t, ht⟩ := outcome_ofResult_eq_error_iff.mp h
    exact ⟨first, input, t, rfl, ht, congrArg Analysis.ofResult ht⟩

end BlockLang
