import BlockLang.Proofs.Depth.Pace
import BlockLang.Proofs.Reading.Expressions
import BlockLang.Proofs.Reading.Stands

/-!
# Runs abreast

Two runs on the same tokens, the second of which comes to the end of the file where the first goes
on. Up to there they are abreast: they differ only in what stands behind the lookahead. After that
the second run is dry, and most of what it may still do depends on the end of the file alone. So
what the first run passes without a stop, the second passes too, unless it stops for want of a
token.

## Main definitions

* `CutOf stream cut`: `cut` gives what `stream` gives, and then the end of the file
* `Abreast s s'`, `AnalyserState.Dry s`: the second run is beside the first, it is at the end
* `Stop.NoMismatch`: it is not for its types that a run stopped
* `Analyser.Tracks m m' R s s'`: if `m` answers from `s`, then `m'` answers from `s'` as `R` says,
  or it stops, but not for its types
* `Analyser.Starves m`, `Analyser.Lingers m`: what a move does at the end of the file
* `Analyser.Cuttable m`: what a move does whose answer no type depends on

## Main results

* `Analyser.tracks_accept`: a token is taken in both runs, behind which the second may be dry
* `Analyser.Tracks.bind`: two moves in turn
* `Analyser.Cuttable.bind`, `Analyser.cuttable_acceptSeen`: moves whose answers no type depends on
-/

namespace BlockLang

open Analyser

/-! ## Streams that are cut -/

/-- The second stream gives what the first gives, and at some place the end of the file. -/
inductive CutOf : TokenStream → TokenStream → Prop
  | here {stream cut rest : TokenStream} {last : Token} (h : cut.pull = (.ok last, rest))
      (ends : last.type = .endOfFile) : CutOf stream cut
  | later {stream cut stream' cut' : TokenStream} {d : Delivery} (h : stream.pull = (d, stream'))
      (h' : cut.pull = (d, cut')) (rest : CutOf stream' cut') : CutOf stream cut

/-- A stream that gives the first tokens of another and then the end of the file is cut. -/
theorem cutOf_of_front {stream cut : TokenStream} {last : Token} {n : Nat}
    (ends : last.type = .endOfFile)
    (agree : cut.front (n + 1) = stream.front n ++ [.ok last]) : CutOf stream cut := by
  induction n generalizing stream cut with
  | zero => exact .here (Prod.ext (List.cons.inj agree).1 rfl) ends
  | succ n ih =>
    rw [TokenStream.front_succ (n + 1), TokenStream.front_succ n stream, List.cons_append,
      List.cons.injEq] at agree
    have pulled : stream.pull = (stream.pull.1, stream.pull.2) := rfl
    have pulled' : cut.pull = (stream.pull.1, cut.pull.2) := Prod.ext agree.1 rfl
    exact .later pulled pulled' (ih agree.2)

/-- The run has come to the end of the file. -/
def AnalyserState.Dry (s : AnalyserState) : Prop := s.lookahead.type = .endOfFile

/-- The second run is beside the first, on a stream that is cut. Nothing is declared in them whose
type is not known. -/
structure Abreast (s s' : AnalyserState) : Prop where
  same : s' = { s with input := s'.input }
  cut : CutOf s.input s'.input
  known : ∃ δ : Declarations, δ.Known ∧ s.scopes = δ.scopes

/-- It is not for its types that the run stopped. -/
def Stop.NoMismatch (stop : Stop) : Prop := stop.rootKind? ≠ some .mismatch

theorem Stop.NoMismatch.through {stop : Stop} (h : stop.NoMismatch) (p : String)
    (lookahead : Token) : (stop.through p lookahead).NoMismatch := by
  rwa [NoMismatch, rootKind?_through]

theorem noMismatch_tooDeep : Stop.tooDeep.NoMismatch := by simp [Stop.NoMismatch, Stop.rootKind?]

theorem noMismatch_of_parse {cause : Cause} {token : Token} (h : cause.kind = .parse) :
    (Stop.fault (.ofLink (cause.link token))).NoMismatch := fun he => by
  cases h.symm.trans (Option.some.inj he)

variable {α β : Type} {s s' t t' : AnalyserState}

namespace Abreast

theorem lookahead_eq (h : Abreast s s') : s'.lookahead = s.lookahead := by rw [h.same]

theorem scopes_eq (h : Abreast s s') : s'.scopes = s.scopes := by rw [h.same]

theorem chain_eq (h : Abreast s s') : s'.chain = s.chain := by rw [h.same]

theorem emit (h : Abreast s s') (e : Event) : Abreast (s.emit e) (s'.emit e) :=
  ⟨by rw [h.same]; rfl, h.cut, h.known⟩

theorem withChain (h : Abreast s s') (chain : OperandChain) :
    Abreast { s with chain := chain } { s' with chain := chain } :=
  ⟨by rw [h.same], h.cut, h.known⟩

/-- A name that stands for something has a type that is known. -/
theorem type_ne_unknown (h : Abreast s s') {name : String} {v : Variable}
    (hv : s.scopes.lookup name = some v) : v.type ≠ .unknown := by
  obtain ⟨δ, known, scopes⟩ := h.known
  rw [scopes, δ.lookup_scopes] at hv
  exact known.lookup hv

theorem declare (h : Abreast s s') {v : Variable} (hv : v.type ≠ .unknown) :
    Abreast ({ s with scopes := s.scopes.declare v.identifier v }.emit (.add v))
      ({ s' with scopes := s'.scopes.declare v.identifier v }.emit (.add v)) := by
  obtain ⟨δ, known, scopes⟩ := h.known
  have stands : Stands s δ [] s.place := ⟨rfl, scopes, known⟩
  exact ⟨by rw [h.same]; rfl, h.cut, _, (stands.declare hv).known, (stands.declare hv).scopes_eq⟩

theorem enterLoop (h : Abreast s s') : Abreast (enterLoop s) (Analyser.enterLoop s') := by
  obtain ⟨δ, known, scopes⟩ := h.known
  have stands : Stands s δ [] s.place := ⟨rfl, scopes, known⟩
  exact ⟨by rw [h.same]; rfl, h.cut, _, stands.enterLoop.known, stands.enterLoop.scopes_eq⟩

theorem leaveLoop (h : Abreast s s') : Abreast (leaveLoop s) (Analyser.leaveLoop s') := by
  obtain ⟨δ, known, scopes⟩ := h.known
  have stands : Stands s δ [] s.place := ⟨rfl, scopes, known⟩
  refine ⟨?_, ?_, _, stands.leaveLoop.known, stands.leaveLoop.scopes_eq⟩
  · -- Closing a scope does not look at the stream.
    rw [AnalyserState.input_leaveLoop, h.same]
    simp only [Analyser.leaveLoop]
    cases s.scopes.leave? <;> rfl
  · rw [AnalyserState.input_leaveLoop, AnalyserState.input_leaveLoop]
    exact h.cut

end Abreast

/-- The second run is beside the first, or it is at the end. -/
abbrev Behind (t t' : AnalyserState) : Prop := Abreast t t' ∨ t'.Dry

namespace Behind

theorem emit (h : Behind t t') (e : Event) : Behind (t.emit e) (t'.emit e) :=
  h.imp (·.emit e) id

theorem withChain (h : Behind t t') (chain : OperandChain) :
    Behind { t with chain := chain } { t' with chain := chain } :=
  h.imp (·.withChain chain) id

end Behind

namespace Analyser

/-! ## What the second run does -/

/-- If the first move answers, then the second answers as `R` says, or it stops, but not for its
types. -/
def Tracks (m m' : Analyser α) (R : α → AnalyserState → α → AnalyserState → Prop)
    (s s' : AnalyserState) : Prop :=
  ∀ a t, m s = .ok a t → Ensures m' (R a t) (fun stop _ => stop.NoMismatch) s'

variable {m m' : Analyser α} {f f' : α → Analyser β}
  {R R' : α → AnalyserState → α → AnalyserState → Prop}
  {S : β → AnalyserState → β → AnalyserState → Prop}

theorem Tracks.imp (h : Tracks m m' R s s') (hR : ∀ a t a' t', R a t a' t' → R' a t a' t') :
    Tracks m m' R' s s' := fun a t hm =>
  (h a t hm).answer (hR a t)

theorem tracks_pure {a a' : α} (h : R a s a' s') : Tracks (pure a) (pure a') R s s' := by
  intro b t hb
  cases hb
  exact h

theorem Tracks.bind (h : Tracks m m' R s s')
    (h' : ∀ a t a' t', R a t a' t' → Tracks (f a) (f' a') S t t') :
    Tracks (m >>= f) (m' >>= f') S s s' := by
  intro b u hb
  obtain ⟨a, t, hm, hf⟩ := bind_eq_ok_iff.mp hb
  exact ensures_bind.mpr ((h a t hm).answer fun a' t' hR => h' a t a' t' hR b u hf)

/-- A token is taken in both runs, behind which the second may be dry. -/
theorem tracks_accept {wanted : TokenType} (h : Abreast s s') :
    Tracks (accept wanted) (accept wanted)
      (fun a t a' t' => a' = a ∧ Behind t t') s s' := by
  intro a t hm
  obtain ⟨hw, rfl, next, input, hp, rfl⟩ := accept_eq_ok_iff.mp hm
  obtain ⟨same, cut, known⟩ := h
  have here : s'.lookahead = s.lookahead := by rw [same]
  cases cut with
  | here hp' ends =>
    -- This is the last token of the second run.
    refine ensures_accept (fun next' input' _ pulled => ?_) (fun e input' _ pulled => ?_)
      fun hne => absurd (here ▸ hw) hne
    · cases hp'.symm.trans pulled
      exact ⟨here, .inr ends⟩
    · cases hp'.symm.trans pulled
  | later hs hp' rest =>
    cases hs.symm.trans hp
    refine ensures_accept (fun next' input' _ pulled => ?_) (fun e input' _ pulled => ?_)
      fun hne => absurd (here ▸ hw) hne
    · cases hp'.symm.trans pulled
      exact ⟨here, .inl ⟨by rw [same]; rfl, rest, known⟩⟩
    · cases hp'.symm.trans pulled

theorem Tracks.inFreshChain
    (h : Tracks m m' R { s with chain := .fresh } { s' with chain := .fresh })
    (hR : ∀ a t a' t', R a t a' t' →
      R' a { t with chain := s.chain } a' { t' with chain := s'.chain }) :
    Tracks (inFreshChain m) (inFreshChain m') R' s s' := by
  intro a t hm
  rw [ensures_inFreshChain]
  simp only [Analyser.inFreshChain] at hm
  cases hb : m { s with chain := .fresh } with
  | error stop r =>
    rw [hb] at hm
    cases hm
  | ok b r =>
    rw [hb] at hm
    cases hm
    exact (h a r hb).answer fun a' t' ht => hR a r a' t' ht

theorem Tracks.within (p : Production)
    (h : Tracks m m' R (s.emit (.begin p.name)) (s'.emit (.begin p.name)))
    (hR : ∀ a t a' t', R a t a' t' →
      R' a (t.emit (.finish p.name)) a' (t'.emit (.finish p.name))) :
    Tracks (within p m) (within p m') R' s s' := by
  intro a t hm
  obtain ⟨r, hr, rfl⟩ := within_eq_ok_iff.mp hm
  refine ensures_within.mpr ((h a r hr).imp (fun a' t' ht => hR a r a' t' ht) fun stop t' ht => ?_)
  exact ht.through _ _

/-! ## At the end of the file -/

/-- At the end of the file the move stops, but not for its types. -/
def Starves (m : Analyser α) : Prop :=
  ∀ s : AnalyserState, s.Dry → Ensures m (fun _ _ => False) (fun stop _ => stop.NoMismatch) s

/-- At the end of the file the move stays there, or it stops, but not for its types. -/
def Lingers (m : Analyser α) : Prop :=
  ∀ s : AnalyserState, s.Dry → Ensures m (fun _ t => t.Dry) (fun stop _ => stop.NoMismatch) s

theorem Starves.lingers (h : Starves m) : Lingers m := fun s hs =>
  (h s hs).answer fun _ _ => False.elim

theorem Starves.tracks (h : Starves m') (hs : s'.Dry) : Tracks m m' R s s' := fun _ _ _ =>
  (h s' hs).answer fun _ _ => False.elim

theorem Starves.bind (h : Starves m) : Starves (m >>= f) := fun s hs =>
  ensures_bind.mpr ((h s hs).answer fun _ _ => False.elim)

theorem Lingers.bind (h : Lingers m) (h' : ∀ a, Lingers (f a)) : Lingers (m >>= f) := fun s hs =>
  ensures_bind.mpr ((h s hs).answer fun a t ht => h' a t ht)

theorem Lingers.starves (h : Lingers m) (h' : ∀ a, Starves (f a)) : Starves (m >>= f) := fun s hs =>
  ensures_bind.mpr ((h s hs).answer fun a t ht => h' a t ht)

/-- What a move does that looks at the end of the file. -/
theorem starves_lookahead {f : Token → Analyser β}
    (h : ∀ t : Token, t.type = .endOfFile → Starves (f t)) : Starves (lookahead >>= f) :=
  fun s hs => h s.lookahead hs s hs

theorem starves_reject {cause : Token → Cause} (h : ∀ t, (cause t).kind = .parse) :
    Starves (reject cause : Analyser α) := fun s _ => noMismatch_of_parse (h s.lookahead)

/-- There is no token to take. -/
theorem starves_accept {wanted : TokenType} (h : wanted ≠ .endOfFile) :
    Starves (accept wanted) := by
  intro s hs
  have other : s.lookahead.type ≠ wanted := fun he => h (he.symm.trans hs)
  refine ensures_accept (fun _ _ he _ => absurd he other) (fun _ _ he _ => absurd he other)
    fun _ => ?_
  exact noMismatch_of_parse (rfl : (Cause.expected wanted s.lookahead).kind = .parse)

theorem starves_expect {wanted : TokenType} (h : wanted ≠ .endOfFile) : Starves (expect wanted) :=
  (starves_accept h).bind

theorem starves_require {p : TokenType → Bool} {cause : Token → Cause}
    (hp : p .endOfFile = false) (h : ∀ t, (cause t).kind = .parse) :
    Starves (require p cause) := by
  intro s hs
  rw [ensures_require, hs, hp, if_neg Bool.false_ne_true]
  exact noMismatch_of_parse (h s.lookahead)

theorem lingers_requireDeclared : Lingers requireDeclared := by
  intro s hs
  have other : s.lookahead.type ≠ .identifier := by rw [hs]; decide
  rw [ensures_requireDeclared, if_neg other]
  exact hs

theorem Starves.inFreshChain (h : Starves m) : Starves (inFreshChain m) := fun _ hs =>
  ensures_inFreshChain.mpr (h _ hs)

theorem Starves.within (h : Starves m) (p : Production) : Starves (within p m) := by
  intro s hs
  refine ensures_within.mpr ((h (s.emit (.begin p.name)) hs).imp (fun _ _ => id)
    fun stop t ht => ?_)
  exact ht.through _ _

/-! ## Moves whose answers no type depends on -/

/-- The runs of the move stay abreast, or the second is dry in the end, and a run that is dry stays
so. -/
structure Cuttable (m : Analyser α) : Prop where
  along : ∀ s s', Abreast s s' →
    Tracks m m (fun a t a' t' => (a' = a ∧ Abreast t t') ∨ t'.Dry) s s'
  lingers : Lingers m

namespace Cuttable

theorem pure (a : α) : Cuttable (Pure.pure a : Analyser α) :=
  ⟨fun _ _ h => tracks_pure (.inl ⟨rfl, h⟩), fun _ hs => hs⟩

theorem bind {f : α → Analyser β} (h : Cuttable m) (h' : ∀ a, Cuttable (f a)) :
    Cuttable (m >>= f) where
  along s s' hs := (h.along s s' hs).bind fun a t a' t' ht => by
    rcases ht with ⟨rfl, ht⟩ | ht
    · exact (h' a').along t t' ht
    · -- The second run goes on at the end of the file, whatever the first does.
      exact fun _ _ _ => ((h' a').lingers t' ht).answer fun _ _ => .inr
  lingers := h.lingers.bind fun a => (h' a).lingers

/-- A move that looks at the lookahead. -/
theorem looking {γ : Type} {f : γ → Analyser β} {look : Analyser γ} (view : Token → γ)
    (run : ∀ s, look s = .ok (view s.lookahead) s) (h : ∀ c, Cuttable (f c)) :
    Cuttable (look >>= f) where
  along s s' hs := by
    intro b u hb
    rw [bind_of_ok (run s)] at hb
    have second : (look >>= f) s' = f (view s.lookahead) s' := by
      rw [bind_of_ok (run s'), hs.lookahead_eq]
    simpa only [Ensures, second] using (h _).along s s' hs b u hb
  lingers s hs := by simpa only [Ensures, bind_of_ok (run s)] using (h _).lingers s hs

theorem lookahead {f : Token → Analyser β} (h : ∀ t, Cuttable (f t)) :
    Cuttable (lookahead >>= f) := looking id (fun _ => rfl) h

theorem lookingAt {p : TokenType → Bool} {f : Bool → Analyser β} (h : ∀ b, Cuttable (f b)) :
    Cuttable (lookingAt p >>= f) := looking (fun t => p t.type) (fun _ => rfl) h

theorem accept {wanted : TokenType} (h : wanted ≠ .endOfFile) : Cuttable (accept wanted) where
  along _ _ hs := (tracks_accept hs).imp fun _ _ _ _ ht =>
    ht.2.imp (fun ht' => ⟨ht.1, ht'⟩) id
  lingers := (starves_accept h).lingers

theorem expect {wanted : TokenType} (h : wanted ≠ .endOfFile) : Cuttable (expect wanted) :=
  (accept h).bind fun _ => .pure _

theorem reject {cause : Token → Cause} (h : ∀ t, (cause t).kind = .parse) :
    Cuttable (reject cause : Analyser α) where
  along _ _ _ := fun _ _ hm => by cases hm
  lingers := (starves_reject h).lingers

end Cuttable

theorem tracks_lookahead :
    Tracks lookahead lookahead
      (fun a t a' t' => (a = s.lookahead ∧ t = s) ∧ a' = s'.lookahead ∧ t' = s') s s' := by
  intro a t hm
  cases hm
  exact ⟨⟨rfl, rfl⟩, rfl, rfl⟩

theorem tracks_typeOf {token token' : Token} :
    Tracks (typeOf token) (typeOf token') (fun τ t τ' t' =>
      (τ = operandType s.scopes token ∧ t = s) ∧ τ' = operandType s'.scopes token' ∧ t' = s')
      s s' := by
  intro a t hm
  cases hm
  exact ⟨⟨rfl, rfl⟩, rfl, rfl⟩

/-- What a move that looks at the lookahead sees is the same in both runs. -/
theorem Tracks.lookahead {f : Token → Analyser β} (hs : Abreast s s')
    (h : Tracks (f s.lookahead) (f s.lookahead) S s s') :
    Tracks (lookahead >>= f) (lookahead >>= f) S s s' := by
  intro b u hb
  have second : (Analyser.lookahead >>= f) s' = f s.lookahead s' := by
    rw [← hs.lookahead_eq]
    rfl
  simpa only [Ensures, second] using h b u hb

theorem tracks_expect {wanted : TokenType} (h : Abreast s s') :
    Tracks (expect wanted) (expect wanted) (fun _ t _ t' => Behind t t') s s' :=
  (tracks_accept h).bind fun _ _ _ _ ht => tracks_pure ht.2

/-- A lookahead of some sort is let pass in both runs. -/
theorem tracks_require {p : TokenType → Bool} {cause : Token → Cause} (h : Abreast s s') :
    Tracks (require p cause) (require p cause) (fun _ t _ t' => Abreast t t') s s' := by
  intro a t hm
  rw [ensures_require, h.lookahead_eq]
  cases seen : p s.lookahead.type with
  | true =>
    have stay : require p cause s = .ok () s := by
      rw [require, bind_of_ok (rfl : lookingAt p s = .ok (p s.lookahead.type) s), seen]
      rfl
    cases hm.symm.trans stay
    exact h
  | false =>
    have refused : require p cause s = reject cause s := by
      rw [require, bind_of_ok (rfl : lookingAt p s = .ok (p s.lookahead.type) s), seen]
      rfl
    cases hm.symm.trans refused

/-- A factor that fits in the first run fits in the second if its type there is no string either. -/
theorem tracks_checkFactor {operator operator' : TokenType} {τ τ' : ValueType}
    {side side' : String} {token token' : Token} (h : τ' = .string → τ = .string) :
    Tracks (checkFactor operator τ side token) (checkFactor operator' τ' side' token')
      (fun _ t _ t' => t = s ∧ t' = s') s s' := by
  intro a t hm
  rw [ensures_checkFactor]
  by_cases hτ : τ = .string
  · simp only [checkFactor, multiplicativeMismatch?, hτ, if_true] at hm
    cases hm
  · simp only [checkFactor, multiplicativeMismatch?, hτ, if_false] at hm
    cases hm
    rw [if_neg fun h' => hτ (h h')]
    exact ⟨rfl, rfl⟩

/-- Terms that fit in the first run fit in the second if the sums are alike. -/
theorem tracks_checkSum {join : Option Join} (h : s'.chain = s.chain) :
    Tracks (checkSum join) (checkSum join) (fun _ t _ t' => t = s ∧ t' = s') s s' := by
  intro a t hm
  rw [ensures_checkSum, h]
  unfold checkSum at hm
  cases hj : join.bind fun j => (s.chain.additiveMismatch? j.operator).map (j.operand, ·) with
  | some found =>
    rw [hj] at hm
    cases hm
  | none =>
    rw [hj] at hm
    cases hm
    exact ⟨rfl, rfl⟩

section Seen

variable {sort : TokenType → Bool} {g : Analyser β} {f : Token → Analyser β}

/-- A token of some sort is taken where it stands, and then comes `f`. If there is none, `g` comes
at once. -/
abbrev acceptSeen (sort : TokenType → Bool) (f : Token → Analyser β) (g : Analyser β) :
    Analyser β :=
  lookingAt sort >>= fun seen =>
    if seen = true then Analyser.lookahead >>= fun t => accept t.type >>= f else g

theorem acceptSeen_eq (sort : TokenType → Bool) (f : Token → Analyser β) (g : Analyser β)
    (s : AnalyserState) : acceptSeen sort f g s =
      if sort s.lookahead.type then (accept s.lookahead.type >>= f) s else g s :=
  acceptSeen_apply sort f g s

/-- A token of some sort is taken in both runs. -/
theorem tracks_acceptSeen (hs : Abreast s s')
    (hf : ∀ a t t', Behind t t' → Tracks (f a) (f a) S t t') (hg : Tracks g g S s s') :
    Tracks (acceptSeen sort f g) (acceptSeen sort f g) S s s' := by
  intro b u hb
  rw [acceptSeen_eq] at hb
  rw [Ensures, acceptSeen_eq, hs.lookahead_eq]
  split at hb
  · next seen =>
    have both : Tracks (accept s.lookahead.type >>= f) (accept s.lookahead.type >>= f) S s s' :=
      (tracks_accept hs).bind fun a t a' t' ht => ht.1 ▸ hf a t t' ht.2
    rw [if_pos seen]
    exact both b u hb
  · next unseen =>
    rw [if_neg unseen]
    exact hg b u hb

/-- At the end of the file there is no token of the sort. -/
theorem acceptSeen_of_dry (hs : s'.Dry) (h : sort .endOfFile = false) :
    acceptSeen sort f g s' = g s' := by
  rw [acceptSeen_eq, hs, h, if_neg Bool.false_ne_true]

theorem cuttable_acceptSeen (h : sort .endOfFile = false) (hf : ∀ a, Cuttable (f a))
    (hg : Cuttable g) : Cuttable (acceptSeen sort f g) where
  along s s' hs := tracks_acceptSeen hs (fun a t t' ht => by
    rcases ht with ht | ht
    · exact (hf a).along t t' ht
    · exact fun _ _ _ => ((hf a).lingers t' ht).answer fun _ _ => .inr) (hg.along s s' hs)
  lingers s hs := by simpa only [Ensures, acceptSeen_of_dry hs h] using hg.lingers s hs

end Seen

/-- A name that stands for something has a type that is known, the same in both runs. -/
theorem tracks_requireDeclared (h : Abreast s s') :
    Tracks requireDeclared requireDeclared (fun a t a' t' => a' = a ∧ t = s ∧ t' = s' ∧
      (s.lookahead.type = .identifier → a ≠ .unknown)) s s' := by
  intro a t hm
  rw [ensures_requireDeclared, h.lookahead_eq, h.scopes_eq]
  by_cases hl : s.lookahead.type = .identifier
  · cases hv : s.scopes.lookup s.lookahead.value with
    | some v =>
      simp only [requireDeclared, hl, if_true, hv] at hm
      cases hm
      rw [if_pos hl]
      exact ⟨rfl, rfl, rfl, fun _ => h.type_ne_unknown hv⟩
    | none =>
      simp only [requireDeclared, hl, if_true, hv] at hm
      cases hm
  · simp only [requireDeclared, hl, if_false] at hm
    cases hm
    rw [if_neg hl]
    exact ⟨rfl, rfl, rfl, fun he => absurd he hl⟩

theorem Cuttable.requireDeclared : Cuttable requireDeclared where
  along _ _ hs := (tracks_requireDeclared hs).imp fun _ _ _ _ ht =>
    .inl ⟨ht.1, ht.2.1 ▸ ht.2.2.1 ▸ hs⟩
  lingers := lingers_requireDeclared

theorem Cuttable.inLoopScope (h : Cuttable m) : Cuttable (inLoopScope m) where
  along s s' hs := by
    intro a t hm
    have inner := h.along _ _ hs.enterLoop
    simp only [Analyser.inLoopScope] at hm
    cases hb : m (enterLoop s) with
    | error stop u =>
      rw [hb] at hm
      cases hm
    | ok b u =>
      rw [hb] at hm
      cases hm
      refine ensures_inLoopScope.mpr ((inner a u hb).imp (fun a' t' ht => ?_) fun _ _ ht => ht)
      rcases ht with ⟨he, ht⟩ | ht
      · exact .inl ⟨he, ht.leaveLoop⟩
      · exact .inr ((congrArg Token.type t'.lookahead_leaveLoop).trans ht)
  lingers s hs := by
    refine ensures_inLoopScope.mpr ((h.lingers (enterLoop s) hs).imp (fun _ t ht => ?_)
      fun _ _ ht => ht)
    exact (congrArg Token.type t.lookahead_leaveLoop).trans ht

theorem Cuttable.within (h : Cuttable m) (p : Production) : Cuttable (within p m) where
  along s s' hs := (h.along _ _ (hs.emit _)).within p fun _ _ _ _ ht =>
    ht.imp (fun h => ⟨h.1, h.2.emit _⟩) id
  lingers s hs := by
    refine ensures_within.mpr ((h.lingers (s.emit (.begin p.name)) hs).imp (fun _ _ ht => ht)
      fun stop t ht => ?_)
    exact ht.through _ _

end Analyser

end BlockLang
