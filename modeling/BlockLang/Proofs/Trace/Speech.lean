import BlockLang.Proofs.Run.Place
import BlockLang.Proofs.Trace.Twin

/-!
# What a trace speaks of

A trace speaks of productions by their names, and of all else by the tokens that the stream handed
out: it tells of the tokens that were taken, of variables named by identifiers among them, and of
causes that quote a token. So a property of all tokens of a stream is one of all that its trace
quotes.

## Main definitions

* `TokenStream.Hands T stream`: all tokens of the stream have the property `T`
* `Event.From T e`: what the entry quotes comes from tokens with the property `T`
* `Fed T s`: what is kept during a run comes from tokens with the property `T`

## Main results

* `Twin.keeps_fed`: a move quotes tokens that were handed out
* `from_of_mem_trace`: so does a trace
-/

namespace BlockLang

open Analyser

variable {T : Token → Prop}

/-- All tokens that the stream hands out have the property. -/
structure TokenStream.Hands (T : Token → Prop) (stream : TokenStream) : Prop where
  items : ∀ t, .ok t ∈ stream.items → T t
  endToken : T stream.endToken

theorem TokenStream.Hands.pull {stream input : TokenStream} {delivery : Delivery}
    (h : stream.Hands T) (hp : stream.pull = (delivery, input)) :
    (∀ t, delivery = .ok t → T t) ∧ input.Hands T := by
  obtain ⟨items, position⟩ := stream
  cases items with
  | nil =>
    obtain ⟨rfl, rfl⟩ := Prod.mk.inj hp
    exact ⟨fun t ht => Except.ok.inj ht ▸ h.endToken, h⟩
  | cons item items =>
    obtain ⟨rfl, rfl⟩ := Prod.mk.inj hp
    exact ⟨fun t ht => h.items t (ht ▸ List.mem_cons_self),
      fun t ht => h.items t (List.mem_cons_of_mem _ ht), h.endToken⟩

/-- Every variable in the scopes has its name and position from an identifier. -/
def Scopes.Named (T : Token → Prop) (s : Scopes) : Prop :=
  ∀ table ∈ s.globals :: s.loops, ∀ v ∈ table.values, Names T v

namespace Scopes.Named

variable {s : Scopes}

theorem empty : Scopes.empty.Named T := by
  intro table ht v hv
  obtain rfl := List.mem_singleton.mp ht
  cases hv

theorem enter (h : s.Named T) : s.enter.Named T := by
  intro table ht v hv
  simp only [Scopes.enter, List.mem_cons] at ht
  rcases ht with rfl | rfl | ht
  · exact h _ List.mem_cons_self v hv
  · cases hv
  · exact h table (List.mem_cons_of_mem _ ht) v hv

theorem declare (h : s.Named T) {v : Variable} (hv : Names T v) (name : String) :
    (s.declare name v).Named T := by
  have inserted {table : Table} (ht : ∀ u ∈ table.values, Names T u) :
      ∀ u ∈ (table.insert name v).values, Names T u := by
    intro u hu
    rcases Dictionary.mem_values_insert hu with rfl | hu
    · exact hv
    · exact ht u hu
  obtain ⟨globals, loops⟩ := s
  cases loops with
  | nil =>
    simp only [Named, Scopes.declare, List.forall_mem_cons] at h ⊢
    exact ⟨inserted h.1, h.2⟩
  | cons inner outer =>
    simp only [Named, Scopes.declare, List.forall_mem_cons] at h ⊢
    exact ⟨h.1, inserted h.2.1, h.2.2⟩

theorem restore (h : s.Named T) (n : Nat) : (s.restore n).Named T := by
  intro table ht v hv
  refine h table ?_ v hv
  rcases List.mem_cons.mp ht with rfl | ht
  · exact List.mem_cons_self
  · exact List.mem_cons_of_mem _ (List.mem_of_mem_drop ht)

theorem leave? (h : s.Named T) {removed : List Variable} {outer : Scopes}
    (hl : s.leave? = some (removed, outer)) : (∀ v ∈ removed, Names T v) ∧ outer.Named T := by
  obtain ⟨globals, loops⟩ := s
  cases loops with
  | nil => cases hl
  | cons inner rest =>
    obtain ⟨rfl, rfl⟩ := Prod.mk.inj (Option.some.inj hl)
    simp only [Named, List.forall_mem_cons] at h
    exact ⟨h.2.1, List.forall_mem_cons.mpr ⟨h.1, h.2.2⟩⟩

end Scopes.Named

/-- What the entry quotes comes from tokens with the property, and what else it names are
productions. -/
def Event.From (T : Token → Prop) : Event → Prop
  | begin name | finish name => ∃ p : Production, name = p.name
  | terminal t => T t
  | add v | remove v => Names T v
  | error token fault => T token ∧
    ((∃ cause : Cause, cause.From T ∧ fault.head.message = cause.message) ∨
      ∃ p : Production, fault.head.message = "error caught in " ++ p.name)

/-- What is kept during a run comes from tokens with the property. -/
structure Fed (T : Token → Prop) (s : AnalyserState) : Prop where
  lookahead : T s.lookahead
  input : s.input.Hands T
  scopes : s.scopes.Named T
  trace : ∀ e ∈ s.trace, e.From T

namespace Fed

variable {s t : AnalyserState}

/-- Nothing is kept at the start but the first token. -/
theorem start {first : Token} {input : TokenStream} (given : T first) (hands : input.Hands T) :
    Fed T (.start first input) where
  lookahead := given
  input := hands
  scopes := .empty
  trace := by
    rw [AnalyserState.trace_start]
    exact List.forall_mem_nil _

theorem emit (h : Fed T s) {e : Event} (he : e.From T) : Fed T (s.emit e) where
  lookahead := h.lookahead
  input := h.input
  scopes := h.scopes
  trace := by
    intro e' he'
    rw [AnalyserState.trace_emit, List.mem_append, List.mem_singleton] at he'
    rcases he' with he' | rfl
    · exact h.trace e' he'
    · exact he

/-- The sum that is being read and the notices do not count. -/
theorem congr (h : Fed T s) (hl : t.lookahead = s.lookahead) (hi : t.input = s.input)
    (hs : t.scopes = s.scopes) (ht : t.trace = s.trace) : Fed T t :=
  ⟨hl ▸ h.lookahead, hi ▸ h.input, hs ▸ h.scopes, ht ▸ h.trace⟩

theorem leaveLoop (h : Fed T s) : Fed T (Analyser.leaveLoop s) := by
  unfold Analyser.leaveLoop
  dsimp only
  split
  · exact h
  · next removed scopes hl =>
    obtain ⟨names, named⟩ := h.scopes.leave? hl
    refine ⟨h.lookahead, h.input, named, fun e he => ?_⟩
    have he : e ∈ s.trace ++ removed.map .remove := by
      simpa [AnalyserState.trace, AnalyserState.notify] using he
    rcases List.mem_append.mp he with he | he
    · exact h.trace e he
    · obtain ⟨v, hv, rfl⟩ := List.mem_map.mp he
      exact names v hv

theorem abandon (h : Fed T s) (p : Production) (stop : Stop) : Fed T (s.abandon p.name stop) where
  lookahead := h.lookahead
  input := h.input
  scopes := h.scopes
  trace := by
    intro e he
    rw [AnalyserState.trace_abandon, List.mem_append] at he
    rcases he with he | he
    · exact h.trace e he
    · cases stop with
      | fault f =>
        rw [Stop.farewell, List.mem_cons, List.mem_singleton] at he
        rcases he with rfl | rfl
        · exact ⟨h.lookahead, .inr ⟨p, rfl⟩⟩
        · exact ⟨p, rfl⟩
      | lexical | tooDeep =>
        obtain rfl := List.mem_singleton.mp he
        exact ⟨p, rfl⟩

end Fed

namespace Analyser

variable {α β : Type} {m : Analyser α} {f : α → Analyser β} {s : AnalyserState}

/-- However the move ends, what is kept comes from tokens with the property. -/
def KeepsFed (T : Token → Prop) (m : Analyser α) : Prop :=
  ∀ s, Fed T s → Ensures m (fun _ t => Fed T t) (fun _ t => Fed T t) s

theorem fed_rejectAt (h : Fed T s) {token : Token} (cause : Cause) (ht : T token)
    (hc : cause.From T) {Q : α → AnalyserState → Prop} :
    Ensures (rejectAt (α := α) token cause) Q (fun _ t => Fed T t) s :=
  ensures_rejectAt.mpr (h.emit ⟨ht, .inl ⟨cause, hc, rfl⟩⟩)

/-- A token that is taken was handed out, and so is the one behind it. -/
theorem fed_accept (h : Fed T s) (wanted : TokenType) :
    Ensures (accept wanted) (fun a t => T a ∧ a.type = wanted ∧ Fed T t)
      (fun _ t => Fed T t) s := by
  have told : Fed T (s.emit (.terminal s.lookahead)) := h.emit (e := .terminal _) h.lookahead
  refine ensures_accept (fun next input ht hp => ?_) (fun e input _ hp => ?_) fun _ => ?_
  · obtain ⟨given, hands⟩ := h.input.pull hp
    exact ⟨h.lookahead, ht, given next rfl, hands, told.scopes, told.trace⟩
  · exact ⟨h.lookahead, (h.input.pull hp).2, told.scopes, told.trace⟩
  · exact fed_rejectAt h (.expected _ _) h.lookahead h.lookahead

theorem fed_requireDeclared (h : Fed T s) :
    Ensures requireDeclared (fun _ t => Fed T t) (fun _ t => Fed T t) s := by
  refine ensures_requireDeclared.mpr ?_
  split
  · next identifier =>
    split
    · exact h
    · exact fed_rejectAt h (.undeclared _) h.lookahead ⟨_, h.lookahead, identifier, rfl⟩
  · exact h

/-- A sum has no mismatch at one side of an operator. -/
theorem sided_of_additiveMismatch {chain : OperandChain} {operator : TokenType} {m : Mismatch}
    (h : chain.additiveMismatch? operator = some m) : m.Sided := by
  unfold OperandChain.additiveMismatch? at h
  split at h
  · cases h
  · cases h
  all_goals
    split at h
    · cases h
      trivial
    · split at h
      · cases h
        trivial
      · cases h

theorem fed_checkSum (h : Fed T s) {join : Option Join} (operand : ∀ j ∈ join, T j.operand) :
    Ensures (checkSum join) (fun _ t => Fed T t) (fun _ t => Fed T t) s := by
  refine ensures_checkSum.mpr ?_
  split
  · next token mismatch refused =>
    obtain ⟨j, hj, refused⟩ := Option.bind_eq_some_iff.mp refused
    obtain ⟨m, hm, same⟩ := Option.map_eq_some_iff.mp refused
    obtain ⟨rfl, rfl⟩ := Prod.mk.inj same
    exact fed_rejectAt h (.mismatch _) (operand j hj) (sided_of_additiveMismatch hm)
  · exact h

end Analyser

/-- A move quotes tokens that were handed out. -/
theorem Twin.keeps_fed {α τ : Type} [TraceSink τ] {m : Analyser α} {n : AnalyserTo τ α}
    (h : Twin T m n) : KeepsFed T m := by
  -- Induction on how the move is put together: what is told quotes a token that was looked at.
  induction h with
  | pure | tooDeep | lookingAt | typeOf => exact fun s h => h
  | beginChain | beginTerm | recordTerm => exact fun s h => h.congr rfl rfl rfl rfl
  | bind _ _ ihm ihf =>
    intro s h
    exact ensures_bind.mpr ((ihm s h).answer fun a t ht => ihf a t ht)
  | looking _ ih => exact fun s h => ensures_bind.mpr (ih s.lookahead h.lookahead s h)
  | taking wanted _ ih =>
    intro s h
    refine ensures_bind.mpr ((fed_accept h wanted).answer fun token t ht => ?_)
    obtain ⟨given, type_eq, ht⟩ := ht
    exact ih token given type_eq t ht
  | refuse hc =>
    intro s h
    exact ensures_reject.mpr (fed_rejectAt h _ h.lookahead (hc _ h.lookahead))
  | mismatch ht hm => exact fun s h => fed_rejectAt h (.mismatch _) ht hm
  | requireDeclared => exact fun s h => fed_requireDeclared h
  | @declare v names =>
    intro s h
    have declared : Fed T { s with scopes := s.scopes.declare v.identifier v } :=
      ⟨h.lookahead, h.input, h.scopes.declare names _, h.trace⟩
    exact ensures_declare.mpr (declared.emit (e := .add v) names)
  | checkSum operand => exact fun s h => fed_checkSum h operand
  | inFreshChain _ ih =>
    intro s h
    have fresh : Fed T { s with chain := .fresh } := h.congr rfl rfl rfl rfl
    refine ensures_inFreshChain.mpr ((ih _ fresh).imp ?_ ?_)
    · exact fun a t ht => ht.congr rfl rfl rfl rfl
    · exact fun stop t ht => ht.congr rfl rfl rfl rfl
  | inLoopScope _ ih =>
    intro s h
    have entered : Fed T (enterLoop s) := ⟨h.lookahead, h.input, h.scopes.enter, h.trace⟩
    refine ensures_inLoopScope.mpr ((ih _ entered).imp (fun a t ht => ht.leaveLoop) ?_)
    exact fun stop t ht => ⟨ht.lookahead, ht.input, ht.scopes.restore _, ht.trace⟩
  | within p _ ih =>
    intro s h
    have begun : Fed T (s.emit (.begin p.name)) := h.emit (e := .begin _) ⟨p, rfl⟩
    refine ensures_within.mpr ((ih _ begun).imp ?_ ?_)
    · exact fun a t ht => ht.emit (e := .finish _) ⟨p, rfl⟩
    · exact fun stop t ht => ht.abandon p stop

/-- A trace quotes tokens that its stream hands out. -/
theorem from_of_mem_trace {limit : Nat} {stream : TokenStream} (hands : stream.Hands T) :
    ∀ e ∈ (analyseWithin limit stream).events.toList, e.From T := by
  rcases hp : stream.pull with ⟨e | first, input⟩
  · rw [analyseWithin_of_error hp]
    exact List.forall_mem_nil _
  · obtain ⟨given, rest⟩ := hands.pull hp
    have run := (Twin.keeps_fed (twin_program limit)) _ (Fed.start (given first rfl) rest)
    rw [analyseWithin_of_pull hp]
    cases hr : program limit (.start first input) with
    | ok a t => exact (run.of_ok hr).trace
    | error stop t => exact (run.of_error hr).trace

end BlockLang
