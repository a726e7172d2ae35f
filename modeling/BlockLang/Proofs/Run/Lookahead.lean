import BlockLang.Proofs.Scoping.Account

/-!
# One token ahead

An analysis asks for a delivery when it starts and for one more whenever it has taken a token. So it
knows one delivery more than it has taken tokens, and what is behind that delivery in the stream has
no part in the analysis. Where that delivery is an error, the last token that was taken is still the
lookahead.

## Main definitions

* `TokenStream.after n stream`: what is left of the stream after `n` deliveries
* `Analyser.Sees m s n`: the move takes `n` tokens, and sees as many deliveries
* `Asks limit stream n`: the analysis asks for `n` deliveries
* `CutShort a taken`: how an analysis ends that a lexical error stopped
* `OneAhead limit stream taken last`: the analysis looks one token ahead

## Main results

* `Analyser.Composed.exists_sees`: a composed move sees one delivery for each token that it takes
* `Asks.unique`: an analysis asks for one number of deliveries
* `analysis_looks_one_token_ahead`: every analysis looks one token ahead
-/

namespace BlockLang

/-! ## Deliveries in turn -/

namespace TokenStream

/-- What is left of a stream after some deliveries. -/
def after : Nat → TokenStream → TokenStream
  | 0, stream => stream
  | n + 1, stream => after n stream.pull.2

theorem front_add (m n : Nat) (stream : TokenStream) :
    stream.front (m + n) = stream.front m ++ (stream.after m).front n := by
  induction m generalizing stream with
  | zero => rw [Nat.zero_add, front, after, List.nil_append]
  | succ m ih => rw [Nat.succ_add, front, front, after, ih, List.cons_append]

/-- Fewer deliveries are the first of more. -/
theorem front_isPrefix {m n : Nat} (h : m ≤ n) (stream : TokenStream) :
    stream.front m <+: stream.front n := by
  obtain ⟨k, rfl⟩ := Nat.exists_eq_add_of_le h
  rw [front_add]
  exact List.prefix_append _ _

theorem after_add (m n : Nat) (stream : TokenStream) :
    stream.after (m + n) = (stream.after m).after n := by
  induction m generalizing stream with
  | zero => rw [Nat.zero_add, after]
  | succ m ih => rw [Nat.succ_add, after, after, ih]

@[simp] theorem length_front (n : Nat) (stream : TokenStream) : (stream.front n).length = n := by
  induction n generalizing stream with
  | zero => rfl
  | succ n ih => rw [front, List.length_cons, ih]

theorem items_after (n : Nat) (stream : TokenStream) :
    (stream.after n).items = stream.items.drop n := by
  induction n generalizing stream with
  | zero => rfl
  | succ n ih =>
    obtain ⟨items, last⟩ := stream
    rw [after, ih]
    cases items <;> simp [pull]

/-- A list of deliveries is the front of its stream. -/
theorem front_mk (ds : List Delivery) (last : Position) :
    (TokenStream.mk ds last).front ds.length = ds := by
  induction ds with
  | nil => rfl
  | cons d ds ih => exact congrArg (d :: ·) ih

theorem front_ofSource (source : String) :
    (ofSource source).front (deliveriesOf source).length = deliveriesOf source :=
  front_mk (deliveriesOf source) (ofSource source).endPosition

/-- Streams that agree on a delivery hand it out alike. -/
theorem pull_eq_of_front {stream other : TokenStream} (h : other.front 1 = stream.front 1) :
    other.pull = (stream.pull.1, other.after 1) :=
  Prod.ext (List.cons.inj h).1 rfl

/-- Streams that agree on some deliveries agree on fewer. -/
theorem front_eq_of_add {m n : Nat} {stream other : TokenStream}
    (h : other.front (m + n) = stream.front (m + n)) :
    other.front m = stream.front m ∧ (other.after m).front n = (stream.after m).front n := by
  rw [front_add, front_add] at h
  exact List.append_inj h (by simp)

end TokenStream

/-- Behind the tokens between two places is the stream of the second. -/
theorem Passes.after {stream input : TokenStream} {first : Token} {ts : List Token} {there : Place}
    (h : Passes (first, input) ts there) (hp : stream.pull = (.ok first, input)) :
    stream.after (ts.length + 1) = there.2 := by
  induction ts generalizing stream first input with
  | nil =>
    obtain rfl : (first, input) = there := h
    simp [TokenStream.after, hp]
  | cons t ts ih =>
    obtain ⟨-, next, rest, hn, h⟩ := h
    rw [List.length_cons, TokenStream.after, hp, ih h hn]

/-! ## What a move sees -/

namespace Analyser

variable {α β : Type} {m : Analyser α} {f : α → Analyser β} {s t : AnalyserState} {n : Nat}

/-- The result with another stream behind the lookahead. -/
def refed (input : TokenStream) :
    EStateM.Result Stop AnalyserState α → EStateM.Result Stop AnalyserState α
  | .ok a t => .ok a { t with input := input }
  | .error stop t => .error stop { t with input := input }

/-- The move takes `n` tokens and sees the next `n` deliveries. With any stream that gives these, it
does the same, and leaves what is behind them. -/
structure Sees (m : Analyser α) (s : AnalyserState) (n : Nat) : Prop where
  length_taken : (endState (m s)).accepted.length = s.accepted.length + n
  refed_eq : ∀ input : TokenStream, input.front n = s.input.front n →
    m { s with input := input } = refed (input.after n) (m s)

/-- A move that takes no token sees nothing of the stream. -/
theorem Sees.still (taken : (endState (m s)).accepted = s.accepted)
    (h : ∀ input, m { s with input := input } = refed input (m s)) : Sees m s 0 :=
  ⟨congrArg List.length taken, fun input _ => h input⟩

/-- A move leaves what is behind the deliveries that it saw. -/
theorem Sees.input_eq (h : Sees m s n) : (endState (m s)).input = s.input.after n := by
  have same : m s = refed (s.input.after n) (m s) := h.refed_eq s.input rfl
  rw [same]
  cases m s <;> rfl

theorem Sees.bind {k : Nat} {a : α} (h : Sees m s n) (hm : m s = .ok a t) (h' : Sees (f a) t k) :
    Sees (m >>= f) s (n + k) := by
  have run (input : TokenStream) (hi : input.front n = s.input.front n) :
      (m >>= f) { s with input := input } = f a { t with input := input.after n } := by
    have hfed := h.refed_eq input hi
    rw [hm] at hfed
    exact bind_of_ok hfed
  have left : t.input = s.input.after n := by simpa [hm, endState] using h.input_eq
  have here : (m >>= f) s = f a t := bind_of_ok hm
  constructor
  · have first : t.accepted.length = s.accepted.length + n := by
      simpa [hm, endState] using h.length_taken
    rw [here, h'.length_taken, first, Nat.add_assoc]
  · intro input hi
    obtain ⟨seen, rest⟩ := TokenStream.front_eq_of_add hi
    rw [run input seen, here, h'.refed_eq _ (by rw [left]; exact rest), TokenStream.after_add]

theorem Sees.bind_error {stop : Stop} (h : Sees m s n) (hm : m s = .error stop t) :
    Sees (m >>= f) s n := by
  have here : (m >>= f) s = .error stop t := bind_of_error hm
  constructor
  · rw [here]
    simpa [hm, endState] using h.length_taken
  · intro input hi
    have hfed := h.refed_eq input hi
    rw [hm] at hfed
    rw [here]
    exact bind_of_error hfed

/-- The stream has no part in which of two moves is made. -/
theorem Sees.congr {m' : Analyser α} (h : Sees m' s n)
    (same : ∀ input, m { s with input := input } = m' { s with input := input }) : Sees m s n := by
  have here : m s = m' s := same s.input
  exact ⟨here ▸ h.length_taken, fun input hi => by rw [same, here, h.refed_eq input hi]⟩

theorem sees_pure (a : α) : Sees (pure a) s 0 := .still rfl fun _ => rfl

theorem sees_rejectAt (token : Token) (cause : Cause) :
    Sees (rejectAt (α := α) token cause) s 0 :=
  .still (by simp [rejectAt, endState, FaultReport.event]) fun _ => rfl

theorem sees_reject (cause : Token → Cause) : Sees (reject (α := α) cause) s 0 :=
  .still (by simp [reject, rejectAt, endState, FaultReport.event]) fun _ => rfl

/-- Taking a token asks for one delivery, and refusing one asks for none. -/
theorem exists_sees_accept (wanted : TokenType) (s : AnalyserState) :
    ∃ n, Sees (accept wanted) s n := by
  by_cases h : s.lookahead.type = wanted
  · refine ⟨1, ?_, fun input hi => ?_⟩
    · simp [AnalyserState.accepted, trace_accept h]
    · have pulled := TokenStream.pull_eq_of_front hi
      rcases hp : s.input.pull with ⟨e | next, behind⟩ <;>
        simp [accept, h, hp, pulled, refed, AnalyserState.emit]
  · exact ⟨0, (sees_reject (.expected wanted)).congr fun input => if_neg h⟩

theorem sees_declare (v : Variable) : Sees (declare v) s 0 :=
  .still ((AnalyserState.accepted_emit ..).trans (List.append_nil _)) fun _ => rfl

theorem sees_requireDeclared : Sees requireDeclared s 0 := by
  by_cases h : s.lookahead.type = .identifier
  · cases hv : s.scopes.lookup s.lookahead.value with
    | some v =>
      refine (sees_pure v.type).congr fun input => ?_
      simp only [requireDeclared, h, if_true, hv]
      rfl
    | none =>
      refine (sees_reject fun t => .undeclared t.value).congr fun input => ?_
      simp only [requireDeclared, h, if_true, hv]
  · refine (sees_pure .unknown).congr fun input => ?_
    simp only [requireDeclared, h, if_false]
    rfl

theorem sees_checkSum {join : Option Join} : Sees (checkSum join) s 0 := by
  cases hj : join.bind fun j => (s.chain.additiveMismatch? j.operator).map (j.operand, ·) with
  | some found =>
    refine (sees_rejectAt found.1 (.mismatch found.2)).congr fun input => ?_
    simp only [checkSum, hj]
  | none =>
    refine (sees_pure ()).congr fun input => ?_
    simp only [checkSum, hj]
    rfl

/-! ## Frames around moves -/

variable {body : Analyser α}

/-- A frame that takes no token and leaves the stream alone sees what the move inside it sees. -/
theorem Sees.frame {m : Analyser β} {r : AnalyserState}
    (leave : EStateM.Result Stop AnalyserState α → EStateM.Result Stop AnalyserState β)
    (h : Sees body r n) (input_eq : r.input = s.input) (enter : r.accepted = s.accepted)
    (run : ∀ input, m { s with input := input } = leave (body { r with input := input }))
    (accepted_leave : ∀ result, (endState (leave result)).accepted = (endState result).accepted)
    (leave_refed : ∀ input result, leave (refed input result) = refed input (leave result)) :
    Sees m s n := by
  have here : m s = leave (body r) := by
    have same : m s = leave (body { r with input := s.input }) := run s.input
    rw [← input_eq] at same
    exact same
  constructor
  · rw [here, accepted_leave, h.length_taken, enter]
  · intro input hi
    rw [run, h.refed_eq input (by rw [input_eq]; exact hi), leave_refed, here]

theorem Sees.inFreshChain (h : Sees body { s with chain := .fresh } n) :
    Sees (inFreshChain body) s n :=
  h.frame (fun result => Analyser.inFreshChain (fun _ => result) s) rfl rfl (fun _ => rfl)
    (fun result => by cases result <;> rfl) fun input result => by cases result <;> rfl

theorem Sees.inLoopScope (h : Sees body (enterLoop s) n) : Sees (inLoopScope body) s n := by
  refine h.frame (fun result => Analyser.inLoopScope (fun _ => result) s) rfl rfl (fun _ => rfl)
    (fun result => ?_) fun input result => ?_
  · cases result with
    | ok a t => exact t.accepted_leaveLoop
    | error stop t => rfl
  · cases result with
    | ok a t =>
      -- Closing a scope does not look at the stream.
      simp only [Analyser.inLoopScope, refed, leaveLoop]
      cases t.scopes.leave? <;> rfl
    | error stop t => rfl

theorem Sees.within (p : Production) (h : Sees body (s.emit (.begin p.name)) n) :
    Sees (within p body) s n := by
  refine h.frame (fun result => Analyser.within p (fun _ => result) s) rfl (by simp) (fun _ => rfl)
    (fun result => ?_) fun input result => ?_
  · cases result with
    | ok a t => simp [Analyser.within, endState]
    | error stop t => cases stop <;> simp [Analyser.within, endState, FaultReport.event]
  · cases result with
    | ok a t => rfl
    | error stop t => cases stop <;> rfl

/-- A composed move sees one delivery for each token that it takes. -/
theorem Composed.exists_sees {m : Analyser α} (h : Composed m) (s : AnalyserState) :
    ∃ n, Sees m s n := by
  induction h generalizing s with
  -- These moves leave the stream and the trace alone.
  | pure | lookahead | lookingAt | typeOf | beginChain | beginTerm | recordTerm | tooDeep =>
    exact ⟨0, .still rfl fun _ => rfl⟩
  | @bind _ _ m f _ _ ihm ihf =>
    obtain ⟨n, hn⟩ := ihm s
    cases hm : m s with
    | ok a t =>
      obtain ⟨k, hk⟩ := ihf a t
      exact ⟨n + k, hn.bind hm hk⟩
    | error stop t => exact ⟨n, hn.bind_error hm⟩
  | accept wanted => exact exists_sees_accept wanted s
  | refuse _ => exact ⟨0, sees_reject _⟩
  | mismatch token m => exact ⟨0, sees_rejectAt _ _⟩
  | requireDeclared => exact ⟨0, sees_requireDeclared⟩
  | declare v => exact ⟨0, sees_declare v⟩
  | checkSum join => exact ⟨0, sees_checkSum⟩
  | inFreshChain _ ih => exact (ih _).imp fun n h => h.inFreshChain
  | inLoopScope _ ih => exact (ih _).imp fun n h => h.inLoopScope
  | within p _ ih => exact (ih _).imp fun n h => h.within p

end Analyser

/-! ## What an analysis asks for -/

variable {limit : Nat} {stream : TokenStream} {first : Token} {input : TokenStream}
  {t : AnalyserState}

/-- What an analysis leaves of its stream: what is behind the last delivery that it asked for. -/
def leftover (limit : Nat) (stream : TokenStream) : TokenStream :=
  match stream.pull with
  | (.error _, input) => input
  | (.ok first, input) => (Analyser.endState (program limit (.start first input))).input

/-- The analysis asks for `n` deliveries: with any stream that gives these it is the same, and it
leaves what is behind them. -/
def Asks (limit : Nat) (stream : TokenStream) (n : Nat) : Prop :=
  ∀ other : TokenStream, other.front n = stream.front n →
    analyseWithin limit other = analyseWithin limit stream ∧ leftover limit other = other.after n

/-- An analysis asks for one number of deliveries. -/
theorem Asks.unique {m n : Nat} (h : Asks limit stream m) (h' : Asks limit stream n) : m = n := by
  -- A stream of `m + n` deliveries is left with as many as were not asked for.
  let other : TokenStream := ⟨stream.front (m + n), stream.endPosition⟩
  have front_other : other.front (m + n) = stream.front (m + n) := by
    simpa using TokenStream.front_mk (stream.front (m + n)) stream.endPosition
  have left := (h other (TokenStream.front_eq_of_add front_other).1).2
  have left' := (h' other (TokenStream.front_eq_of_add (Nat.add_comm m n ▸ front_other)).1).2
  have rest : (other.after m).items.length = (other.after n).items.length := by
    rw [← left, ← left']
  simp only [TokenStream.items_after, List.length_drop, TokenStream.length_front, other] at rest
  omega

/-- A stream that breaks at once is asked for one delivery. -/
theorem asks_of_error {e : LexicalError} (h : stream.pull = (.error e, input)) :
    Asks limit stream 1 := by
  intro other front_eq
  have pulled := TokenStream.pull_eq_of_front front_eq
  rw [h] at pulled
  rw [analyseWithin_of_error h, analyseWithin_of_error pulled, leftover, pulled]
  exact ⟨rfl, rfl⟩

/-- The first token, and a delivery for each token that is taken. -/
theorem asks_of_pull (limit : Nat) (h : stream.pull = (.ok first, input)) :
    Asks limit stream
      ((Analyser.endState (program limit (.start first input))).accepted.length + 1) := by
  obtain ⟨n, sees⟩ := (composed_program limit).exists_sees (.start first input)
  have taken : (Analyser.endState (program limit (.start first input))).accepted.length = n := by
    simpa using sees.length_taken
  intro other front_eq
  rw [taken, Nat.add_comm] at front_eq ⊢
  obtain ⟨now, later⟩ := TokenStream.front_eq_of_add front_eq
  have pulled := TokenStream.pull_eq_of_front now
  rw [h] at pulled
  have behind : stream.after 1 = input := congrArg Prod.snd h
  have run : program limit (.start first (other.after 1)) =
      Analyser.refed (other.after (1 + n)) (program limit (.start first input)) := by
    rw [TokenStream.after_add]
    exact sees.refed_eq _ (behind ▸ later)
  rw [analyseWithin_of_pull h, analyseWithin_of_pull pulled, leftover, pulled]
  dsimp only
  rw [run]
  cases program limit (.start first input) <;> exact ⟨rfl, rfl⟩

/-! ## The delivery after the tokens that were taken -/

/-- Up to the lookahead a run took what the stream delivered. -/
theorem Reaches.front_eq (h : Reaches (.start first input) t)
    (hp : stream.pull = (.ok first, input)) :
    stream.front (t.accepted.length + 1) = t.accepted.map .ok ++ [.ok t.lookahead] := by
  obtain ⟨ts, passes, taken⟩ := h
  obtain rfl : t.accepted = ts := by simpa using taken
  rw [passes.front hp, List.map_append]
  rfl

/-- Up to the error a run took what the stream delivered. -/
theorem Breaks.front_eq {e : LexicalError} (h : Breaks (.start first input) e t)
    (hp : stream.pull = (.ok first, input)) :
    stream.front (t.accepted.length + 1) = t.accepted.map .ok ++ [.error e] := by
  obtain ⟨ts, input', passes, broken, taken⟩ := h
  have taken : t.accepted = ts ++ [t.lookahead] := by simpa using taken
  rw [taken, List.length_append, List.length_singleton, TokenStream.front_add, passes.front hp,
    passes.after hp, TokenStream.front, broken]
  rfl

/-- The tokens that an analysis takes are the first that its stream delivers. -/
theorem exists_front_eq (limit : Nat) (stream : TokenStream) :
    ∃ last, stream.front ((accepted (analyseWithin limit stream).events.toList).length + 1) =
      (accepted (analyseWithin limit stream).events.toList).map .ok ++ [last] := by
  rcases hp : stream.pull with ⟨e | first, input⟩
  · rw [analyseWithin_of_error hp]
    exact ⟨.error e, by simp [Analysis.unlexed, accepted, TokenStream.front, hp]⟩
  · rw [analyseWithin_of_pull hp]
    have steady := (composed_program limit).steady (.start first input)
    cases hr : program limit (.start first input) with
    | ok a t => exact ⟨_, (steady.of_ok hr).front_eq hp⟩
    | error stop t =>
      have halts := steady.of_error hr
      cases stop with
      | fault f => exact ⟨_, Reaches.front_eq halts hp⟩
      | tooDeep => exact ⟨_, Reaches.front_eq halts hp⟩
      | lexical e => exact ⟨_, Breaks.front_eq halts hp⟩

/-- How an analysis ends that a lexical error stopped: no error is told, the last token that was
taken is still the lookahead, and behind it the trace only ends what is open, from the innermost
outward. There is no trace if no token was taken. -/
structure CutShort (a : Analysis Unit) (taken : List Token) : Prop where
  lookahead_eq : a.lookahead = taken.getLast?
  errorFree : ErrorFree a.events.toList
  silent : taken = [] → a.events.toList = []
  closes : ∀ token, taken.getLast? = some token → ∃ before, a.events.toList =
    before ++ .terminal token :: (openProductions before).reverse.map .finish

/-- The analysis looks one token ahead: it takes the first tokens of its stream, and asks for these
and for one delivery more. -/
structure OneAhead (limit : Nat) (stream : TokenStream) (taken : List Token) (last : Delivery) :
    Prop where
  accepted_eq : accepted (analyseWithin limit stream).events.toList = taken
  front_eq : stream.front (taken.length + 1) = taken.map .ok ++ [last]
  asks_iff : ∀ n, Asks limit stream n ↔ n = taken.length + 1
  lookahead_eq : ∀ token, last = .ok token → (analyseWithin limit stream).lookahead = some token
  lexical_iff : ∀ e, (analyseWithin limit stream).outcome = .error (.lexical e) ↔ last = .error e
  of_ok : (analyseWithin limit stream).outcome = .ok () →
    ∃ token, last = .ok token ∧ token.type = .endOfFile
  cutShort : ∀ e, last = .error e → CutShort (analyseWithin limit stream) taken

/-- A lexical error ends what is open and says nothing else. -/
theorem unwinding_lexical (lookahead : Token) (e : LexicalError) (productions : List String) :
    unwinding lookahead (.lexical e) productions = productions.map .finish := by
  induction productions with
  | nil => rfl
  | cons p productions ih => exact congrArg (.finish p :: ·) ih

/-- A lexical error cuts a program short. -/
theorem Lost.cutShort {e : LexicalError} {origin : Stop} {before said : List Event}
    {productions : List String}
    (h : Lost [] .empty (.start first input) (.lexical e) t before origin said productions) :
    CutShort (.ofState (.error (.lexical e)) t) t.accepted := by
  obtain ⟨rfl, rfl⟩ := h.unwinds.origin_eq_lexical
  obtain ⟨front, rfl⟩ := h.broken e rfl
  have trace : t.trace = front ++ .terminal t.lookahead :: productions.map .finish := by
    simpa [unwinding_lexical] using h.unwinds.trace_eq
  have opened : (openProductions front).reverse = productions := by
    simpa [openProductions, openAfter_append, openAfter] using h.unwinds.opens []
  have taken : t.accepted.getLast? = some t.lookahead := by
    have ends : accepted (productions.map .finish) = [] := by
      simp [accepted, Event.accepted?]
    rw [AnalyserState.accepted, trace, ← List.singleton_append, accepted_append, accepted_append,
      accepted_terminal, ends, List.append_nil, List.getLast?_concat]
  refine ⟨taken.symm, ?_, fun none => ?_, fun token last => ⟨front, ?_⟩⟩
  · change ErrorFree t.trace
    rw [h.unwinds.trace_eq]
    simpa using h.unwinds.errorFree.append (errorFree_unwinding_lexical _ e _)
  · rw [none] at taken
    cases taken
  · cases taken.symm.trans last
    rw [opened]
    exact trace

namespace OneAhead

/-- The deliveries that an analysis asks for are as many as one knows of. -/
theorem asks_iff_of_asks {n : Nat} (h : Asks limit stream n) (k : Nat) :
    Asks limit stream k ↔ k = n :=
  ⟨fun h' => h'.unique h, fun e => e ▸ h⟩

/-- The stream breaks at once. -/
theorem of_error {e : LexicalError} (hp : stream.pull = (.error e, input)) :
    OneAhead limit stream [] (.error e) := by
  have left : analyseWithin limit stream = _ := analyseWithin_of_error hp
  refine {
    accepted_eq := by rw [left]; rfl
    front_eq := by simp [TokenStream.front, hp]
    asks_iff := asks_iff_of_asks (asks_of_error hp)
    lookahead_eq := fun token same => by cases same
    lexical_iff := fun e' => by simp [left, Analysis.unlexed]
    of_ok := fun h => by simp [left, Analysis.unlexed] at h
    cutShort := fun e' _ => ?_ }
  rw [left]
  exact ⟨rfl, .nil, fun _ => rfl, fun token last => by cases last⟩

/-- The run came to a token. -/
theorem of_reaches {outcome : Except Stop Unit} (hp : stream.pull = (.ok first, input))
    (left : analyseWithin limit stream = .ofState outcome t)
    (run : Analyser.endState (program limit (.start first input)) = t)
    (h : Reaches (.start first input) t) (unbroken : ∀ e, outcome ≠ .error (.lexical e))
    (ended : outcome = .ok () → t.lookahead.type = .endOfFile) :
    OneAhead limit stream t.accepted (.ok t.lookahead) := by
  exact {
    accepted_eq := by rw [left]; rfl
    front_eq := h.front_eq hp
    asks_iff := asks_iff_of_asks (by simpa [run] using asks_of_pull limit hp)
    lookahead_eq := fun token same => by
      cases same
      rw [left]
      rfl
    lexical_iff := fun e => by simpa [left, Analysis.ofState] using unbroken e
    of_ok := fun ok => ⟨t.lookahead, rfl, ended (by rw [left] at ok; exact ok)⟩
    cutShort := fun e same => by cases same }

/-- The stream broke behind a token. -/
theorem of_breaks {e : LexicalError} (hp : stream.pull = (.ok first, input))
    (left : analyseWithin limit stream = .ofState (.error (.lexical e)) t)
    (run : Analyser.endState (program limit (.start first input)) = t)
    (h : Breaks (.start first input) e t)
    (short : CutShort (.ofState (.error (.lexical e)) t) t.accepted) :
    OneAhead limit stream t.accepted (.error e) := by
  exact {
    accepted_eq := by rw [left]; rfl
    front_eq := h.front_eq hp
    asks_iff := asks_iff_of_asks (by simpa [run] using asks_of_pull limit hp)
    lookahead_eq := fun token same => by cases same
    lexical_iff := fun e' => by simp [left, Analysis.ofState]
    of_ok := fun ok => by rw [left] at ok; cases ok
    cutShort := fun _ _ => left ▸ short }

end OneAhead

/-- Every analysis looks one token ahead, however it ends. -/
theorem analysis_looks_one_token_ahead (limit : Nat) (stream : TokenStream) :
    ∃ taken last, OneAhead limit stream taken last := by
  rcases hp : stream.pull with ⟨e | first, input⟩
  · exact ⟨[], .error e, .of_error hp⟩
  · have steady := (composed_program limit).steady (.start first input)
    have tells := tells_program limit first input
    have left : analyseWithin limit stream = _ := analyseWithin_of_pull hp
    cases hr : program limit (.start first input) with
    | ok a t =>
      rw [hr] at left
      refine ⟨_, _, .of_reaches hp left (by rw [hr]; rfl) (steady.of_ok hr) nofun fun _ => ?_⟩
      exact (program_eq_ok_iff.mp hr).2
    | error stop t =>
      rw [hr] at left
      have run : Analyser.endState (program limit (.start first input)) = t := by rw [hr]; rfl
      have halts := steady.of_error hr
      cases stop with
      | fault f => exact ⟨_, _, .of_reaches hp left run halts nofun nofun⟩
      | tooDeep => exact ⟨_, _, .of_reaches hp left run halts nofun nofun⟩
      | lexical e =>
        obtain ⟨before, origin, said, productions, lost⟩ := tells.of_error hr
        exact ⟨_, _, .of_breaks hp left run halts lost.cutShort⟩

end BlockLang
