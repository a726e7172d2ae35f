import BlockLang.Proofs.Depth.Unlimited
import BlockLang.Proofs.Fault.Unwinding

/-!
# The limit on open productions

A limit on the productions that are open at once changes nothing unless the analysis needs more of
them. Every move needs a number of them, which its trace tells: under a limit that allows as many
the move does what it does without one, and under any other it is stopped.

## Main definitions

* `Nested events d`: at most `d` productions of the piece are open at once, and `d` of them are
* `Needs K m s events d`: the move tells `events`, and needs `d` productions open at once
* `programBy call`: a program whose parts are analysed by `call`
* `analyseFreely stream`: the analysis of a program without a limit
* `Transparent limit stream free`: the limit changes nothing about `free` but that it may stop it

## Main results

* `Paced.exists_needs`: a move needs what its parts need
* `exists_needs_analyser`: every production needs some number of productions open at once
* `tooDeep_iff_exists_prefix`: what a limit stops
* `depth_limit_is_transparent`: every limit is transparent
-/

namespace BlockLang

open Analyser

/-! ## Nested pieces of a trace -/

/-- The piece of a trace ends all that it begins, and the most of its productions that are open at
once are `d`. -/
structure Nested (events : List Event) (d : Nat) : Prop where
  closed : ∀ stack, openAfter stack events = stack
  bounded : ∀ before, before <+: events → ∀ stack,
    (openAfter stack before).length ≤ stack.length + d
  reached : ∃ before, before <+: events ∧ ∀ stack,
    (openAfter stack before).length = stack.length + d

namespace Nested

variable {es fs : List Event} {d k : Nat}

theorem openAfter_of_flat (h : ∀ e ∈ es, e.Flat) (stack : List String) :
    openAfter stack es = stack := by
  induction es with
  | nil => rfl
  | cons e es ih =>
    have rest := ih fun e he => h e (List.mem_cons_of_mem _ he)
    obtain ⟨hb, hf⟩ := h e List.mem_cons_self
    cases e with
    | begin p => exact absurd rfl hb
    | finish p => exact absurd rfl hf
    | _ => exact rest

theorem flat (h : ∀ e ∈ es, e.Flat) : Nested es 0 where
  closed := openAfter_of_flat h
  bounded before hp stack := by
    rw [openAfter_of_flat fun e he => h e (hp.subset he)]
    exact Nat.le_refl _
  reached := ⟨[], List.nil_prefix, fun _ => rfl⟩

theorem append (he : Nested es d) (hf : Nested fs k) : Nested (es ++ fs) (max d k) where
  closed stack := by rw [openAfter_append, he.closed, hf.closed]
  bounded before hp stack := by
    rcases List.prefix_or_prefix_of_prefix hp (List.prefix_append es fs) with inside | behind
    · have := he.bounded before inside stack
      omega
    · obtain ⟨rest, rfl⟩ := behind
      have := hf.bounded rest ((List.prefix_append_right_inj es).mp hp) stack
      rw [openAfter_append, he.closed]
      omega
  reached := by
    obtain ⟨before, hp, hd⟩ := he.reached
    obtain ⟨rest, hr, hk⟩ := hf.reached
    rcases Nat.le_total d k with h | h
    · refine ⟨es ++ rest, (List.prefix_append_right_inj es).mpr hr, fun stack => ?_⟩
      rw [openAfter_append, he.closed, hk, Nat.max_eq_right h]
    · refine ⟨before, hp.trans (List.prefix_append es fs), fun stack => ?_⟩
      rw [hd, Nat.max_eq_left h]

/-- A production around a piece. -/
theorem bracket (h : Nested es d) (p : String) :
    Nested (.begin p :: es ++ [.finish p]) (d + 1) where
  closed stack := by simp [openAfter, openAfter_append, h.closed]
  bounded before hp stack := by
    -- Nothing, or the beginning with some of the piece behind it, or all.
    rcases List.prefix_concat_iff.mp hp with rfl | hp
    · simp [openAfter, openAfter_append, h.closed]
    · rcases List.prefix_cons_iff.mp hp with rfl | ⟨inside, rfl, hi⟩
      · exact Nat.le_add_right _ _
      · have := h.bounded inside hi (p :: stack)
        rw [List.length_cons] at this
        rw [openAfter]
        omega
  reached := by
    obtain ⟨before, hp, hd⟩ := h.reached
    refine ⟨.begin p :: before, ?_, fun stack => ?_⟩
    · exact ((List.prefix_cons_inj _).mpr hp).trans (List.prefix_append _ _)
    · rw [openAfter, hd, List.length_cons]
      omega

end Nested

/-! ## What a move needs -/

/-- The move tells `events` and needs `d` productions open at once, among the limits up to `K`:
under a limit that allows these it does what it does under `K`, and any other one stops it. -/
structure Needs {α : Type} (K : Nat) (m : Callee → Analyser α) (s : AnalyserState)
    (events : List Event) (d : Nat) : Prop where
  nested : Nested events d
  trace_eq : (endState (m (analyser K) s)).trace = s.trace ++ events
  enough : ∀ k ≤ K, d ≤ k → m (analyser k) s = m (analyser K) s
  short : ∀ k ≤ K, k < d → ∃ t, m (analyser k) s = .error .tooDeep t

variable {α β : Type} {K r : Nat} {m : Callee → Analyser α} {f : Callee → α → Analyser β}
  {s t : AnalyserState} {es fs : List Event} {d k : Nat}

namespace Needs

theorem congr {m' : Callee → Analyser α} (h : Needs K m' s es d)
    (same : ∀ call, m call s = m' call s) : Needs K m s es d where
  nested := h.nested
  trace_eq := by rw [same, h.trace_eq]
  enough k hk hd := by rw [same, same, h.enough k hk hd]
  short k hk hd := by rw [same]; exact h.short k hk hd

/-- A move without parts needs nothing. -/
theorem flat {m : Analyser α} (flat : ∀ e ∈ es, e.Flat)
    (told : (endState (m s)).trace = s.trace ++ es) : Needs K (fun _ => m) s es 0 where
  nested := .flat flat
  trace_eq := told
  enough _ _ _ := rfl
  short _ _ h := absurd h (Nat.not_lt_zero _)

/-- Two moves in turn need the more of what they need. -/
theorem bind {a : α} (h : Needs K m s es d) (hm : m (analyser K) s = .ok a t)
    (h' : Needs K (f · a) t fs k) :
    Needs K (fun call => m call >>= f call) s (es ++ fs) (max d k) := by
  have whole : (m (analyser K) >>= f (analyser K)) s = f (analyser K) a t := bind_of_ok hm
  have run (l : Nat) (hl : l ≤ K) (hd : d ≤ l) :
      (m (analyser l) >>= f (analyser l)) s = f (analyser l) a t :=
    bind_of_ok ((h.enough l hl hd).trans hm)
  have first : t.trace = s.trace ++ es := by
    have told := h.trace_eq
    rwa [hm] at told
  refine ⟨h.nested.append h'.nested, ?_, fun l hl hd => ?_, fun l hl hd => ?_⟩
  · rw [whole, h'.trace_eq, first, List.append_assoc]
  · rw [whole, run l hl (le_of_max_le_left hd), h'.enough l hl (le_of_max_le_right hd)]
  · by_cases hl' : l < d
    · obtain ⟨u, hu⟩ := h.short l hl hl'
      exact ⟨u, bind_of_error hu⟩
    · have hd' := Nat.le_of_not_lt hl'
      obtain ⟨u, hu⟩ := h'.short l hl ((lt_max_iff.mp hd).resolve_left hl')
      exact ⟨u, by rw [run l hl hd', hu]⟩

/-- A move that stops needs what it needs alone. -/
theorem bind_error {stop : Stop} (h : Needs K m s es d) (hm : m (analyser K) s = .error stop t) :
    Needs K (fun call => m call >>= f call) s es d := by
  have whole : (m (analyser K) >>= f (analyser K)) s = .error stop t := bind_of_error hm
  refine ⟨h.nested, ?_, fun l hl hd => ?_, fun l hl hd => ?_⟩
  · have told := h.trace_eq
    rw [whole]
    rwa [hm] at told
  · rw [whole]
    exact bind_of_error ((h.enough l hl hd).trans hm)
  · obtain ⟨u, hu⟩ := h.short l hl hd
    exact ⟨u, bind_of_error hu⟩

/-- A frame that begins and ends no production needs what the move inside it needs. -/
theorem frame {m' : Callee → Analyser β} {r : AnalyserState}
    (leave : EStateM.Result Stop AnalyserState α → EStateM.Result Stop AnalyserState β)
    (h : Needs K m r es d) (run : ∀ call, m' call s = leave (m call r))
    (stopped : ∀ t, ∃ u, leave (.error .tooDeep t) = .error .tooDeep u) (nested : Nested fs d)
    (told : (endState (leave (m (analyser K) r))).trace = s.trace ++ fs) :
    Needs K m' s fs d where
  nested := nested
  trace_eq := by rw [run, told]
  enough k hk hd := by rw [run, run, h.enough k hk hd]
  short k hk hd := by
    obtain ⟨t, ht⟩ := h.short k hk hd
    rw [run, ht]
    exact stopped t

end Needs

/-- A move that stands still needs nothing. -/
theorem exists_needs_still {m : Analyser α} (h : Still m) (s : AnalyserState) :
    ∃ es d, Needs K (fun _ => m) s es d := by
  have idle : Idle s (endState (m s)) :=
    Ensures.endState ((h s).imp (fun _ _ ht => ht) fun _ _ ht => ht.2)
  obtain ⟨-, -, es, flat, told⟩ := idle
  exact ⟨es, 0, .flat flat told⟩

/-- Taking a token needs nothing, and refusing one does not either. -/
theorem exists_needs_accept (wanted : TokenType) (s : AnalyserState) :
    ∃ es d, Needs K (fun _ => accept wanted) s es d := by
  by_cases h : s.lookahead.type = wanted
  · exact ⟨[.terminal s.lookahead], 0, .flat (by simp [Event.Flat, Event.kind]) (trace_accept h)⟩
  · have refused : accept wanted s = reject (.expected wanted) s := if_neg h
    obtain ⟨es, d, needs⟩ :=
      exists_needs_still (K := K) (Still.reject (α := Token) (.expected wanted)) s
    exact ⟨es, d, needs.congr fun _ => refused⟩

theorem exists_needs_bind (hm : ∃ es d, Needs K m s es d)
    (hf : ∀ a t, ∃ es d, Needs K (f · a) t es d) :
    ∃ es d, Needs K (fun call => m call >>= f call) s es d := by
  obtain ⟨es, d, h⟩ := hm
  cases hr : m (analyser K) s with
  | ok a t =>
    obtain ⟨fs, k, h'⟩ := hf a t
    exact ⟨_, _, h.bind hr h'⟩
  | error stop t => exact ⟨_, _, h.bind_error hr⟩

/-- A move needs what its parts need. -/
theorem Paced.exists_needs {b b' : Bool} (h : Paced r b m b')
    (parts : ∀ c s, ∃ es d, Needs K (fun call => call c) s es d) (s : AnalyserState) :
    ∃ es d, Needs K m s es d := by
  induction h generalizing s with
  | still still => exact exists_needs_still still s
  | refuse cause => exact exists_needs_still (.reject cause) s
  | accept wanted _ => exact exists_needs_accept wanted s
  | @acceptSeen _ _ _ sort _ _ _ _ _ ihf ihg =>
    cases seen : sort s.lookahead.type with
    | true =>
      obtain ⟨es, d, needs⟩ :=
        exists_needs_bind (exists_needs_accept (K := K) s.lookahead.type s) ihf
      exact ⟨es, d, needs.congr fun call => by rw [acceptSeen_apply, seen, if_pos rfl]⟩
    | false =>
      obtain ⟨es, d, needs⟩ := ihg s
      exact ⟨es, d, needs.congr fun call => by rw [acceptSeen_apply, seen]; rfl⟩
  | part c _ => exact parts c s
  | bind _ _ ihm ihf => exact exists_needs_bind (ihm s) ihf
  | @inFreshChain _ _ _ m _ ih =>
    obtain ⟨es, d, needs⟩ := ih { s with chain := .fresh }
    refine ⟨es, d, needs.frame (fun result => Analyser.inFreshChain (fun _ => result) s)
      (fun _ => rfl) (fun t => ⟨_, rfl⟩) needs.nested ?_⟩
    have told := needs.trace_eq
    cases hr : m (analyser K) { s with chain := .fresh } <;> rw [hr] at told <;> exact told
  | @inLoopScope _ _ _ m _ ih =>
    obtain ⟨es, d, needs⟩ := ih (enterLoop s)
    have told := needs.trace_eq
    cases hr : m (analyser K) (enterLoop s) with
    | ok a t =>
      -- Closing the scope tells what it drops.
      rw [hr] at told
      obtain ⟨removed, dropped⟩ := AnalyserState.trace_leaveLoop t
      have flat : ∀ e ∈ removed.map Event.remove, e.Flat := by simp [Event.Flat, Event.kind]
      refine ⟨es ++ removed.map .remove, d, needs.frame
        (fun result => Analyser.inLoopScope (fun _ => result) s) (fun _ => rfl)
        (fun t => ⟨_, rfl⟩) (by simpa using needs.nested.append (.flat flat)) ?_⟩
      rw [hr]
      exact dropped.trans (by rw [← List.append_assoc]; exact congrArg (· ++ _) told)
    | error stop t =>
      rw [hr] at told
      refine ⟨es, d, needs.frame (fun result => Analyser.inLoopScope (fun _ => result) s)
        (fun _ => rfl) (fun t => ⟨_, rfl⟩) needs.nested ?_⟩
      rw [hr]
      exact told

/-- A production that a stop leaves tells at most of a fault before its end. -/
theorem Stop.exists_farewell_eq (stop : Stop) (p : String) (lookahead : Token) :
    ∃ said : List Event, (∀ e ∈ said, e.Flat) ∧
      stop.farewell p lookahead = said ++ [.finish p] := by
  cases stop with
  | fault f =>
    exact ⟨[.error lookahead (f.within (passageLink p lookahead))],
      by simp [Event.Flat, Event.kind], rfl⟩
  | lexical e => exact ⟨[], by simp, rfl⟩
  | tooDeep => exact ⟨[], by simp, rfl⟩

/-- What a production tells behind the move inside it. -/
theorem exists_trace_within (p : Production) (body : Analyser α) (s : AnalyserState) :
    ∃ said : List Event, (∀ e ∈ said, e.Flat) ∧ (endState (within p body s)).trace =
      (endState (body (s.emit (.begin p.name)))).trace ++ said ++ [.finish p.name] := by
  refine Ensures.endState (P := fun t => ∃ said : List Event, (∀ e ∈ said, e.Flat) ∧
    t.trace = _ ++ said ++ [.finish p.name]) (ensures_within.mpr ?_)
  cases hb : body (s.emit (.begin p.name)) with
  | ok a t =>
    simp only [Ensures, hb, endState]
    exact ⟨[], by simp, by simp⟩
  | error stop t =>
    simp only [Ensures, hb, endState]
    obtain ⟨said, flat, farewell⟩ := stop.exists_farewell_eq p.name t.lookahead
    exact ⟨said, flat, by simp [farewell]⟩

/-- A production needs itself, and what its rule needs. -/
theorem Needs.within {c : Call}
    (h : Needs K (fun call => rule call c) (s.emit (.begin c.production.name)) es d) :
    ∃ fs, Needs (K + 1) (fun call => call c) s fs (d + 1) := by
  obtain ⟨said, flat, told⟩ := exists_trace_within c.production (rule (analyser K) c) s
  have body : Nested (es ++ said) d := by simpa using h.nested.append (.flat flat)
  refine ⟨_, body.bracket c.production.name, ?_, fun k hk hd => ?_, fun k hk hd => ?_⟩
  · rw [analyser_succ, told, h.trace_eq]
    simp
  · -- One of the productions that are allowed is this one.
    obtain ⟨l, rfl⟩ := Nat.exists_eq_add_of_le' (Nat.zero_lt_succ d |>.trans_le hd)
    have same := h.enough l (Nat.le_of_succ_le_succ hk) (Nat.le_of_succ_le_succ hd)
    simp only [analyser_succ, Analyser.within, same]
  · cases k with
    | zero => exact ⟨s, rfl⟩
    | succ l =>
      obtain ⟨t, ht⟩ := h.short l (Nat.le_of_succ_le_succ hk) (Nat.lt_of_succ_lt_succ hd)
      exact ⟨_, by simp only [analyser_succ, Analyser.within, ht]; rfl⟩

/-- Every production needs some number of productions open at once. -/
theorem exists_needs_analyser (K : Nat) (c : Call) (s : AnalyserState) :
    ∃ es d, Needs K (fun call => call c) s es d := by
  induction K generalizing c s with
  | zero =>
    -- A run that may not open a production tells nothing.
    refine ⟨[], 0, .flat (by simp), (List.append_nil _).symm, fun k hk _ => ?_, by simp⟩
    rw [Nat.le_zero.mp hk]
  | succ K ih =>
    obtain ⟨es, d, needs⟩ := (paced_rule c).exists_needs ih (s.emit (.begin c.production.name))
    obtain ⟨fs, needs⟩ := needs.within
    exact ⟨fs, d + 1, needs⟩

/-! ## Analyses under a limit -/

/-- A program whose parts are analysed by `call`. -/
def programBy (call : Callee) : Analyser Unit := do
  call .statementPart
  Analyser.require (· == .endOfFile) .trailing

theorem paced_programBy : Paced 2 false programBy true :=
  .bind (.part .statementPart (.inr (by decide))) fun _ => .still (.require _ _)

/-- With enough room, a limit is none for a program. -/
theorem program_eq_programBy (h : room .statementPart s ≤ K) :
    program K s = programBy unlimited s ∧
      Ensures (programBy unlimited) (fun _ _ => True) (fun stop _ => stop ≠ .tooDeep) s := by
  obtain ⟨same, descends⟩ := analyser_eq_of_room_le h le_rfl
  have run : program K s = programBy unlimited s := by
    simp only [program, programBy, Bind.bind, EStateM.bind, same]
    rfl
  have ends : Ensures (program K) (fun _ _ => True) (fun stop _ => stop ≠ .tooDeep) s :=
    ensures_bind.mpr (descends.answer fun _ t _ =>
      (Still.require _ _ t).imp (fun _ _ _ => trivial) fun _ _ ht => ht.1)
  exact ⟨run, by simpa only [Ensures, run] using ends⟩

/-- How many productions a program needs open at once. -/
theorem exists_needs_program (limit : Nat) (s : AnalyserState) :
    ∃ es d, Nested es d ∧ (endState (programBy unlimited s)).trace = s.trace ++ es ∧
      (d ≤ limit → program limit s = programBy unlimited s) ∧
      (limit < d → ∃ t, program limit s = .error .tooDeep t) := by
  obtain ⟨es, d, needs⟩ := paced_programBy.exists_needs
    (exists_needs_analyser (max limit (room .statementPart s))) s
  have whole : programBy (analyser (max limit (room .statementPart s))) s =
      programBy unlimited s := (program_eq_programBy (le_max_right _ _)).1
  refine ⟨es, d, needs.nested, whole ▸ needs.trace_eq, fun h => ?_, fun h => ?_⟩
  · exact (needs.enough limit (le_max_left _ _) h).trans whole
  · exact needs.short limit (le_max_left _ _) h

/-- The analysis of a program without a limit. -/
def analyseFreely (stream : TokenStream) : Analysis Unit :=
  runFrom .empty (programBy unlimited) stream

variable {stream input : TokenStream} {first : Token} {e : LexicalError}

theorem analyseFreely_of_error (hp : stream.pull = (.error e, input)) :
    analyseFreely stream = .unlexed .empty e := by
  simp [analyseFreely, runFrom, hp]

theorem analyseFreely_of_pull (hp : stream.pull = (.ok first, input)) :
    analyseFreely stream = .ofResult (programBy unlimited (.start first input)) := by
  simp [analyseFreely, runFrom, hp, AnalyserState.start]

/-- No limit stops an analysis without one. -/
theorem outcome_analyseFreely_ne (stream : TokenStream) :
    (analyseFreely stream).outcome ≠ .error .tooDeep := by
  rcases hp : stream.pull with ⟨e | first, input⟩
  · rw [analyseFreely_of_error hp]
    nofun
  · rw [analyseFreely_of_pull hp, Ne, outcome_ofResult_eq_error_iff]
    rintro ⟨t, ht⟩
    exact (program_eq_programBy le_rfl).2.of_error ht rfl

/-- A limit that covers the items of the stream is none. -/
theorem analyseWithin_eq_analyseFreely (h : 3 * stream.items.length + 1 ≤ K) :
    analyseWithin K stream = analyseFreely stream := by
  rcases hp : stream.pull with ⟨e | first, input⟩
  · rw [analyseWithin_of_error hp, analyseFreely_of_error hp]
  · have enough : room .statementPart (.start first input) ≤ K :=
      (Nat.add_le_add_right (Nat.mul_le_mul_left 3 (TokenStream.le_length_of_pull hp)) 1).trans h
    rw [analyseWithin_of_pull hp, analyseFreely_of_pull hp, (program_eq_programBy enough).1]

/-- The limit of a plain analysis is none. -/
theorem analyse_eq_analyseFreely (stream : TokenStream) :
    analyse stream = analyseFreely stream :=
  analyseWithin_eq_analyseFreely le_rfl

/-- A limit above that of the plain analysis changes nothing. -/
theorem analyseWithin_eq_analyse (h : 3 * stream.items.length + 1 ≤ K) :
    analyseWithin K stream = analyse stream :=
  (analyseWithin_eq_analyseFreely h).trans (analyse_eq_analyseFreely stream).symm

/-- How many productions an analysis needs open at once. -/
theorem exists_nested_analyseFreely (limit : Nat) (stream : TokenStream) :
    ∃ d, Nested (analyseFreely stream).events.toList d ∧
      (d ≤ limit → analyseWithin limit stream = analyseFreely stream) ∧
      (limit < d → (analyseWithin limit stream).outcome = .error .tooDeep) := by
  rcases hp : stream.pull with ⟨e | first, input⟩
  · rw [analyseWithin_of_error hp, analyseFreely_of_error hp]
    exact ⟨0, .flat (by simp [Analysis.unlexed]), fun _ => rfl, by simp⟩
  · rw [analyseWithin_of_pull hp, analyseFreely_of_pull hp]
    obtain ⟨es, d, nested, told, enough, short⟩ := exists_needs_program limit (.start first input)
    have events_eq : (Analysis.ofResult (programBy unlimited (.start first input))).events.toList =
        es := by
      rw [AnalyserState.trace_start, List.nil_append] at told
      rw [← told]
      cases programBy unlimited (.start first input) <;> rfl
    refine ⟨d, events_eq ▸ nested, fun h => congrArg Analysis.ofResult (enough h), fun h => ?_⟩
    exact outcome_ofResult_eq_error_iff.mpr (short h)

/-- A limit stops an analysis just where more productions are open at some moment. -/
theorem tooDeep_iff_exists_prefix (limit : Nat) (stream : TokenStream) :
    (analyseWithin limit stream).outcome = .error .tooDeep ↔
      ∃ before, before <+: (analyseFreely stream).events.toList ∧
        limit < (openProductions before).length := by
  obtain ⟨d, nested, enough, short⟩ := exists_nested_analyseFreely limit stream
  constructor
  · intro h
    have less : limit < d := Nat.lt_of_not_le fun hd =>
      outcome_analyseFreely_ne stream (enough hd ▸ h)
    obtain ⟨before, hp, reached⟩ := nested.reached
    refine ⟨before, hp, ?_⟩
    rwa [openProductions, List.length_reverse, reached, List.length_nil, Nat.zero_add]
  · rintro ⟨before, hp, more⟩
    have most := nested.bounded before hp []
    rw [openProductions, List.length_reverse] at more
    rw [List.length_nil, Nat.zero_add] at most
    exact short (more.trans_le most)

/-- A limit that does not stop an analysis changes nothing about it. -/
theorem tooDeep_or_eq_analyseFreely (limit : Nat) (stream : TokenStream) :
    (analyseWithin limit stream).outcome = .error .tooDeep ∨
      analyseWithin limit stream = analyseFreely stream := by
  obtain ⟨d, -, enough, short⟩ := exists_nested_analyseFreely limit stream
  exact (Nat.lt_or_ge limit d).imp short enough

/-- The limit changes nothing about the analysis `free`, which always ends, but that it stops it if
more productions are open at some moment than the limit allows. -/
structure Transparent (limit : Nat) (stream : TokenStream) (free : Analysis Unit) : Prop where
  ends : free.outcome ≠ .error .tooDeep
  answers : (analyseWithin limit stream).outcome = .error .tooDeep ∨
    analyseWithin limit stream = free
  tooDeep_iff : (analyseWithin limit stream).outcome = .error .tooDeep ↔
    ∃ before, before <+: free.events.toList ∧ limit < (openProductions before).length
  raised : (analyseWithin limit stream).outcome ≠ .error .tooDeep →
    ∀ more ≥ limit, analyseWithin more stream = analyseWithin limit stream
  plain : analyse stream = free

/-- There is one analysis in which the productions call each other freely, and every limit is
transparent to it. -/
theorem depth_limit_is_transparent (limit : Nat) (stream : TokenStream) :
    ∃ call, (∀ call', Unlimited call' ↔ call' = call) ∧
      Transparent limit stream (runFrom .empty (programBy call) stream) := by
  refine ⟨unlimited, fun _ => unlimited_iff, outcome_analyseFreely_ne stream,
    tooDeep_or_eq_analyseFreely limit stream, tooDeep_iff_exists_prefix limit stream,
    fun h more le => ?_, analyse_eq_analyseFreely stream⟩
  -- What the lower limit does not stop, the higher one does not either.
  have passed : (analyseWithin more stream).outcome ≠ .error .tooDeep := by
    rw [Ne, tooDeep_iff_exists_prefix] at h ⊢
    exact fun ⟨before, hp, less⟩ => h ⟨before, hp, le.trans_lt less⟩
  rw [(tooDeep_or_eq_analyseFreely more stream).resolve_left passed,
    (tooDeep_or_eq_analyseFreely limit stream).resolve_left h]

/-- An assignment needs the seven productions from the program to its factor. -/
example :
    let stream := TokenStream.ofSource "begin x := 1 end"
    (analyseWithin 6 stream).outcome = .error .tooDeep ∧
      (analyseWithin 7 stream).outcome = .ok () := by
  decide +kernel

end BlockLang
