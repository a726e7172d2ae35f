import BlockLang.Proofs.Fault.Unwinding
import BlockLang.Proofs.Scoping.Replay

/-!
# What a run tells of its scopes

A run tells of its scopes in the trace: the scopes hold what the replay of the trace declares, each
loop that is left in order tells what it drops, and an identifier that is accepted where it stands
for a value is visible then. This is so for a move that answers and for one that stops, whose open
productions close their loops on the way out.

## Main definitions

* `Guarded stack δ events`: identifiers that stand for values are visible when they are accepted
* `Recorded stack δ events`: moreover the ends of loops tell what they drop
* `Encloses stack p`: the productions around a move that the rule of `p` is made of
* `Logged`, `Lost`: the trace of a move that answered, and of one that stopped
* `Analyser.Tells m stack δ s`: the move tells of its scopes

## Main results

* `Assembled.tells`: what rules are made of tells of its scopes
* `tells_program`: a program tells of its scopes
* `analyseWithin_cases`: an analysis is of a stream that breaks at once, or its program told
-/

namespace BlockLang

open Analyser

/-- If the event accepts an identifier that stands for a value, the identifier is visible. -/
def Event.Visible (stack : List String) (δ : Declarations) (e : Event) : Prop :=
  ∀ t, e = .terminal t → t.type = .identifier →
    (∃ p : Production, p.reads ∧ p.name ∈ stack) → δ.lookup t.value ≠ none

/-- Every identifier that stands for a value is visible when it is accepted. -/
def Guarded : List String → Declarations → List Event → Prop
  | _, _, [] => True
  | stack, δ, e :: rest => e.Visible stack δ ∧ Guarded (openAfter stack [e]) (δ.record e) rest

variable {stack : List String} {δ ε : Declarations} {e : Event} {es fs : List Event}
  {p : Production}

theorem guarded_append :
    Guarded stack δ (es ++ fs) ↔
      Guarded stack δ es ∧ Guarded (openAfter stack es) (replay δ es) fs := by
  induction es generalizing stack δ with
  | nil => simp [Guarded, openAfter]
  | cons e es ih =>
    have step : openAfter stack (e :: es) = openAfter (openAfter stack [e]) es := by
      rw [← List.singleton_append, openAfter_append]
    rw [List.cons_append, Guarded, ih, Guarded, replay_cons, step, and_assoc]

/-- Nothing is asked of a trace that accepts nothing. -/
theorem guarded_of_silent (h : ∀ e ∈ es, ∀ t, e ≠ .terminal t) : Guarded stack δ es := by
  induction es generalizing stack δ with
  | nil => trivial
  | cons e es ih =>
    exact ⟨fun t he => absurd he (h e List.mem_cons_self t),
      ih fun e he => h e (List.mem_cons_of_mem _ he)⟩

/-- Identifiers that stand for values are visible when they are accepted, and right after the end of
each loop, and nowhere else, stands what it drops. -/
structure Recorded (stack : List String) (δ : Declarations) (events : List Event) : Prop where
  guarded : Guarded stack δ events
  removals : events = withRemovals δ (withoutRemovals events)

namespace Recorded

theorem nil : Recorded stack δ [] := ⟨trivial, rfl⟩

theorem append (he : Recorded stack δ es) (hf : Recorded (openAfter stack es) (replay δ es) fs) :
    Recorded stack δ (es ++ fs) := by
  refine ⟨guarded_append.mpr ⟨he.guarded, hf.guarded⟩, ?_⟩
  rw [withoutRemovals_append, withRemovals_append, replay_withoutRemovals, ← he.removals,
    ← hf.removals]

/-- An event that drops nothing. -/
theorem single (visible : e.Visible stack δ) (drops : δ.drops e = []) (kind : e.kind ≠ .remove) :
    Recorded stack δ [e] := by
  refine ⟨⟨visible, trivial⟩, ?_⟩
  simp [withoutRemovals, kind, withRemovals, drops]

theorem begin (p : String) : Recorded stack δ [.begin p] := single nofun rfl nofun

/-- The end of a production that is no loop. -/
theorem finish {p : String} (h : p ≠ Production.forStatement.name) :
    Recorded stack δ [.finish p] :=
  single nofun (if_neg h) nofun

/-- The end of a loop, with what it drops. -/
theorem finishLoop {log : List Variable} {outer : List (List Variable)}
    (h : δ.loops = log :: outer) :
    Recorded stack δ (.finish Production.forStatement.name ::
      (contents log).map .remove) := by
  generalize hv : contents log = vs
  have drops : δ.drops (.finish Production.forStatement.name) = vs.map .remove := by
    rw [Declarations.drops, if_pos rfl, h, List.headD_cons, hv]
  have removes : ∀ e ∈ vs.map Event.remove, e.kind = .remove := by
    intro e he
    obtain ⟨v, -, rfl⟩ := List.mem_map.mp he
    rfl
  have removed : withoutRemovals (vs.map .remove) = [] := by
    rw [withoutRemovals, List.filter_eq_nil_iff]
    intro e he
    simp [removes e he]
  refine ⟨⟨fun t ht => (by cases ht), guarded_of_silent fun e he t ht => ?_⟩, ?_⟩
  · cases (ht ▸ removes e he : (Event.terminal t).kind = .remove)
  · rw [← List.singleton_append, withoutRemovals_append, removed]
    simp [withoutRemovals, Event.kind, withRemovals, drops]

end Recorded

/-! ## Moves that answered and moves that stopped -/

/-- The productions around a move that the rule of `p` is made of: if identifiers stand for values
in one of them, they do so everywhere in `p`. -/
structure Encloses (stack : List String) (p : Production) : Prop where
  inside : ∀ q : Production, q.reads → q.name ∈ stack → p.readsOnly
  innermost : p.reads → stack.head? = some p.name

theorem Encloses.part {q : Production} (h : Encloses stack p)
    (hq : p.readsOnly = false ∨ q.readsOnly) : Encloses (q.name :: stack) q := by
  refine ⟨fun r hr hs => ?_, fun _ => rfl⟩
  rcases List.mem_cons.mp hs with same | hs
  · exact Production.readsOnly_of_reads (Production.name_injective same ▸ hr)
  · refine hq.resolve_left fun outside => ?_
    cases (h.inside r hr hs).symm.trans outside

variable {s t u : AnalyserState} {stop origin : Stop} {first before : List Event}
  {productions : List String}

/-- The trace of a move that answered: it is settled and recorded, and the scopes are those of its
replay. -/
structure Logged (stack : List String) (δ : Declarations) (s : AnalyserState) (events : List Event)
    (t : AnalyserState) : Prop where
  settled : Settled events
  trace_eq : t.trace = s.trace ++ events
  recorded : Recorded stack δ events
  scopes_eq : t.scopes = (replay δ events).scopes
  depth_eq : (replay δ events).depth = δ.depth

/-- What is not declared where a fault arises: an identifier that would stand for a value in the
innermost production. -/
def Missing (stack : List String) (δ : Declarations) (lookahead : Token) (origin : Stop) : Prop :=
  ∀ f, origin = .fault f → f.root.kind = .undeclared →
    lookahead.type = .identifier ∧ δ.lookup lookahead.value = none ∧
      f = .ofLink ((Cause.undeclared lookahead.value).link lookahead) ∧
      ∃ p : Production, p.reads ∧ stack.head? = some p.name

/-- The trace of a move that stopped: it is recorded up to where the stop arose, and the scopes are
those that remain when the open productions are closed. -/
structure Lost (stack : List String) (δ : Declarations) (s : AnalyserState) (stop : Stop)
    (t : AnalyserState) (before : List Event) (origin : Stop) (first : List Event)
    (productions : List String) : Prop where
  unwinds : Unwinds s stop t before origin first productions
  recorded : Recorded stack δ before
  scopes_eq : t.scopes = (replay δ (before ++ productions.map .finish)).scopes
  depth_eq : (replay δ (before ++ productions.map .finish)).depth = δ.depth
  missing : Missing (productions ++ stack) (replay δ before) t.lookahead origin
  broken : ∀ e, origin = .lexical e → ∃ front, before = front ++ [.terminal t.lookahead]

/-- Of the state before the move, only the trace counts. -/
theorem Lost.congr {r : AnalyserState} (h : Lost stack δ s stop t before origin first productions)
    (hr : r.trace = s.trace) : Lost stack δ r stop t before origin first productions where
  unwinds := ⟨h.unwinds.errorFree, h.unwinds.opens, h.unwinds.arises, h.unwinds.stop_eq,
    hr ▸ h.unwinds.trace_eq⟩
  recorded := h.recorded
  scopes_eq := h.scopes_eq
  depth_eq := h.depth_eq
  missing := h.missing
  broken := h.broken

/-- Nothing was told and the scopes are as before. -/
theorem Logged.of_eq (hs : s.scopes = δ.scopes) (ht : t.trace = s.trace)
    (scopes : t.scopes = s.scopes) : Logged stack δ s [] t :=
  ⟨.nil, by simpa using ht, .nil, scopes.trans hs, rfl⟩

theorem Logged.trans (h : Logged stack δ s es t) (h' : Logged stack (replay δ es) t fs u) :
    Logged stack δ s (es ++ fs) u where
  settled := h.settled.append h'.settled
  trace_eq := by rw [h'.trace_eq, h.trace_eq, List.append_assoc]
  recorded := h.recorded.append (by rw [h.settled.closed]; exact h'.recorded)
  scopes_eq := by rw [replay_append, h'.scopes_eq]
  depth_eq := by rw [replay_append, h'.depth_eq, h.depth_eq]

/-- A move that stopped after one that answered. -/
theorem Logged.lost (h : Logged stack δ s es t)
    (h' : Lost stack (replay δ es) t stop u before origin first productions) :
    Lost stack δ s stop u (es ++ before) origin first productions where
  unwinds := {
    errorFree := h.settled.errorFree.append h'.unwinds.errorFree
    opens := fun stack => by rw [openAfter_append, h.settled.closed, h'.unwinds.opens]
    arises := h'.unwinds.arises
    stop_eq := h'.unwinds.stop_eq
    trace_eq := by simp [h'.unwinds.trace_eq, h.trace_eq] }
  recorded := h.recorded.append (by rw [h.settled.closed]; exact h'.recorded)
  scopes_eq := by rw [List.append_assoc, replay_append, h'.scopes_eq]
  depth_eq := by rw [List.append_assoc, replay_append, h'.depth_eq, h.depth_eq]
  missing := by rw [replay_append]; exact h'.missing
  broken := fun e he => by
    obtain ⟨front, rfl⟩ := h'.broken e he
    exact ⟨es ++ front, (List.append_assoc ..).symm⟩

/-- A stop that has just arisen. -/
theorem Lost.of_arises (hs : s.scopes = δ.scopes) (h : Recorded stack δ es) (settled : Settled es)
    (arises : stop.Arises t.lookahead first) (trace_eq : t.trace = s.trace ++ es ++ first)
    (scopes : t.scopes = s.scopes) (same : replay δ es = δ)
    (missing : Missing stack δ t.lookahead stop)
    (broken : ∀ e, stop = .lexical e → ∃ front, es = front ++ [.terminal t.lookahead]) :
    Lost stack δ s stop t es stop first [] where
  unwinds := .of_arises settled arises trace_eq
  recorded := h
  scopes_eq := by simp [same, scopes, hs]
  depth_eq := by simp [same]
  missing := by simpa [same] using missing
  broken := broken

/-- A run that is too deep stops before it tells anything. -/
theorem Lost.of_tooDeep (hs : s.scopes = δ.scopes) (ht : t.trace = s.trace)
    (scopes : t.scopes = s.scopes) : Lost stack δ s .tooDeep t [] .tooDeep [] [] :=
  .of_arises hs .nil .nil .tooDeep (by simpa using ht) scopes rfl nofun nofun

namespace Analyser

variable {α β : Type} {m : Analyser α} {f : α → Analyser β}

/-- The move tells of its scopes, whether it answers or stops. -/
def Tells (m : Analyser α) (stack : List String) (δ : Declarations) (s : AnalyserState) : Prop :=
  Ensures m (fun _ t => ∃ events, Logged stack δ s events t)
    (fun stop t => ∃ before origin first productions,
      Lost stack δ s stop t before origin first productions) s

theorem tells_bind (hm : Tells m stack δ s)
    (hf : ∀ a t ε, t.scopes = ε.scopes → Tells (f a) stack ε t) : Tells (m >>= f) stack δ s := by
  refine ensures_bind.mpr (hm.answer fun a t ht => ?_)
  obtain ⟨es, ht⟩ := ht
  refine (hf a t _ ht.scopes_eq).imp (fun b u hu => ?_) fun stop u hu => ?_
  · obtain ⟨fs, hu⟩ := hu
    exact ⟨es ++ fs, ht.trans hu⟩
  · obtain ⟨before, origin, first, productions, hu⟩ := hu
    exact ⟨es ++ before, origin, first, productions, ht.lost hu⟩

/-- A token is refused, which is not for want of a declaration. -/
theorem tells_rejectAt {token : Token} {cause : Cause} (hs : s.scopes = δ.scopes)
    (stands : cause.kind = .mismatch ∨ token = s.lookahead) (declared : cause.kind ≠ .undeclared) :
    Tells (rejectAt (α := α) token cause) stack δ s := by
  refine ensures_rejectAt.mpr ⟨[], _, _, [], .of_arises hs .nil .nil (.fault token cause stands)
    (by simp) rfl rfl (fun f hf undeclared => ?_) nofun⟩
  obtain rfl := Stop.fault.inj hf
  exact absurd undeclared declared

/-- A token is taken that is visible if it stands for a value. -/
theorem tells_accept {wanted : TokenType} (hs : s.scopes = δ.scopes)
    (visible : s.lookahead.type = wanted → (Event.terminal s.lookahead).Visible stack δ) :
    Tells (accept wanted) stack δ s := by
  have recorded (h : s.lookahead.type = wanted) : Recorded stack δ [.terminal s.lookahead] :=
    .single (visible h) rfl nofun
  refine ensures_accept (fun next input h _ => ?_) (fun e input h _ => ?_) fun _ => ?_
  · exact ⟨_, .terminal _, by simp, recorded h, hs, rfl⟩
  · exact ⟨_, _, _, _, .of_arises hs (recorded h) (.terminal _) (.lexical e)
      (by simp [AnalyserState.trace, AnalyserState.emit]) rfl rfl nofun fun _ _ => ⟨[], rfl⟩⟩
  · exact tells_rejectAt hs (.inr rfl) fun undeclared => by cases undeclared

theorem tells_expect {wanted : TokenType} (hs : s.scopes = δ.scopes)
    (visible : s.lookahead.type = wanted → (Event.terminal s.lookahead).Visible stack δ) :
    Tells (expect wanted) stack δ s :=
  tells_bind (tells_accept hs visible) fun _ _ _ ht => ⟨[], .of_eq ht rfl rfl⟩

/-- An identifier that stands for a value is taken if it is declared. -/
theorem tells_use {f : ValueType → Analyser α} (hs : s.scopes = δ.scopes) (hp : p.reads)
    (h : Encloses stack p) (hf : ∀ a t ε, t.scopes = ε.scopes → Tells (f a) stack ε t) :
    Tells (requireDeclared >>= fun a => expect .identifier >>= fun _ => f a) stack δ s := by
  refine ensures_bind.mpr (ensures_requireDeclared.mpr ?_)
  split
  · next identifier =>
    split
    · next x hx =>
      -- The identifier stands for `x`.
      refine tells_bind (tells_expect hs fun _ t ht _ _ => ?_) fun _ => hf _
      rw [← Event.terminal.inj ht, ← δ.lookup_scopes, ← hs, hx]
      nofun
    · next hx =>
      rw [hs, δ.lookup_scopes] at hx
      refine ensures_rejectAt.mpr ⟨[], _, _, [], .of_arises hs .nil .nil
        (.fault s.lookahead _ (.inr rfl)) (by simp) rfl rfl (fun f hf _ => ?_) nofun⟩
      obtain rfl := Stop.fault.inj hf
      exact ⟨identifier, hx, rfl, p, hp, h.innermost hp⟩
  · next other =>
    exact tells_bind (tells_expect hs fun identifier => absurd identifier other) fun _ => hf _

end Analyser

/-! ## Productions -/

/-- The productions tell of their scopes between their begin and their end, where a loop that begins
has been opened and one that ends is not closed yet. A production that is too deep tells nothing. -/
def TellingParts (call : Callee) : Prop :=
  ∀ (c : Call) (s : AnalyserState) (δ : Declarations) (stack : List String),
    s.scopes = (δ.record (.begin c.production.name)).scopes →
    Encloses (c.production.name :: stack) c.production →
    Ensures (call c)
      (fun _ t => ∃ body u, t = u.emit (.finish c.production.name) ∧
        Logged (c.production.name :: stack) (δ.record (.begin c.production.name))
          (s.emit (.begin c.production.name)) body u)
      (fun stop t => stop = .tooDeep ∧ t = s ∨ ∃ inner u before origin first productions,
        stop = inner.through c.production.name u.lookahead ∧
        t = u.abandon c.production.name inner ∧
        Lost (c.production.name :: stack) (δ.record (.begin c.production.name))
          (s.emit (.begin c.production.name)) inner u before origin first productions) s

/-- A production around a recorded piece that its end is recorded behind. -/
theorem Recorded.bracket {q : String} {body last : List Event}
    (hb : Recorded (q :: stack) (δ.record (.begin q)) body) (closed : Settled body)
    (hl : Recorded (q :: stack) (replay δ (.begin q :: body)) last) :
    Recorded stack δ (.begin q :: body ++ last) := by
  have opened : Recorded stack δ (.begin q :: body) :=
    Recorded.append (.begin q) hb
  refine opened.append ?_
  have inside : openAfter stack (.begin q :: body) = q :: stack := closed.closed _
  rw [inside]
  exact hl

/-- What is left of the open productions when one more is around them. -/
theorem Lost.within {q : Production} {inner : Stop}
    (h : Lost (q.name :: stack) (δ.record (.begin q.name)) (s.emit (.begin q.name)) inner u before
      origin first productions) (scopes : t.scopes = (replay δ
        (.begin q.name :: before ++ (productions ++ [q.name]).map .finish)).scopes)
    (depth : (replay δ (.begin q.name :: before ++ (productions ++ [q.name]).map .finish)).depth =
      δ.depth)
    (place : t.trace = (u.abandon q.name inner).trace ∧ t.lookahead = u.lookahead) :
    Lost stack δ s (inner.through q.name u.lookahead) t (.begin q.name :: before) origin first
      (productions ++ [q.name]) where
  unwinds := by
    obtain ⟨errorFree, opens, arises, stop_eq, trace_eq⟩ := h.unwinds.within
    exact ⟨errorFree, opens, place.2 ▸ arises, place.2 ▸ stop_eq, by
      rw [place.1, place.2]
      exact trace_eq⟩
  recorded := Recorded.append (.begin q.name) h.recorded
  scopes_eq := scopes
  depth_eq := depth
  missing := by
    rw [List.append_assoc, place.2]
    exact h.missing
  broken := fun e he => by
    obtain ⟨front, rfl⟩ := h.broken e he
    exact ⟨.begin q.name :: front, by rw [place.2]; rfl⟩

namespace Analyser

variable {call : Callee}

/-- A production that is no loop tells of its scopes. -/
theorem tells_part (parts : TellingParts call) (c : Call) (plain : c.production ≠ .forStatement)
    (hs : s.scopes = δ.scopes) (h : Encloses (c.production.name :: stack) c.production) :
    Tells (call c) stack δ s := by
  have named : c.production.name ≠ Production.forStatement.name := fun he =>
    plain (Production.name_injective he)
  have opened (δ : Declarations) := δ.record_begin_of_ne named
  have closed (δ : Declarations) := δ.record_finish_of_ne named
  refine (parts c s δ stack (by rw [opened, hs]) h).imp ?_ ?_
  · rintro a t ⟨body, u, rfl, logged⟩
    have recorded : Recorded stack δ _ := .bracket logged.recorded logged.settled (.finish named)
    rw [opened] at logged
    refine ⟨_, logged.settled.bracket _, ?_, recorded, ?_, ?_⟩
    · simp [logged.trace_eq]
    · simp [opened, closed, logged.scopes_eq]
    · simp [opened, closed, logged.depth_eq]
  · rintro stop t (⟨rfl, rfl⟩ | ⟨inner, u, before, origin, first, productions, rfl, rfl, lost⟩)
    · exact ⟨_, _, _, _, .of_tooDeep hs rfl rfl⟩
    · have scopes := lost.scopes_eq
      have depth := lost.depth_eq
      rw [opened] at scopes depth
      refine ⟨_, _, _, _, lost.within ?_ ?_ ⟨rfl, rfl⟩⟩
      · simpa [opened, closed] using scopes
      · simpa [opened, closed] using depth

/-- The innermost loop is closed, and it drops its variables. -/
theorem leaveLoop_logged {log : List Variable} {outer : List (List Variable)}
    (hs : s.scopes = ε.scopes) (loops : ε.loops = log :: outer) :
    (leaveLoop s).trace = s.trace ++ (contents log).map .remove ∧
      (leaveLoop s).scopes = ε.leave.scopes := by
  obtain ⟨globals, _⟩ := ε
  obtain rfl : _ = log :: outer := loops
  have left : s.scopes.leave? =
      some (contents log, ⟨table globals, outer.map table⟩) := by
    rw [hs, ← values_table]
    rfl
  simp [leaveLoop, left, AnalyserState.trace, AnalyserState.notify, Declarations.leave,
    Declarations.scopes]

/-- Dropping scopes until one less is open closes the innermost loop. -/
theorem restore_scopes {n : Nat} (h : ε.depth = n + 1) : ε.scopes.restore n = ε.leave.scopes := by
  obtain ⟨globals, loops⟩ := ε
  cases loops with
  | nil => cases h
  | cons log outer =>
    obtain rfl : outer.length = n := Nat.succ.inj h
    simp [Declarations.scopes, Scopes.restore, Scopes.depth, Declarations.leave]

/-- A loop tells of its scopes. -/
theorem tells_loop (parts : TellingParts call) (hs : s.scopes = δ.scopes)
    (h : Encloses (Production.forStatement.name :: stack) .forStatement) :
    Tells (inLoopScope (call .forStatement)) stack δ s := by
  have entered :
      (enterLoop s).scopes = (δ.record (.begin Production.forStatement.name)).scopes := by
    rw [δ.record_begin_loop, δ.scopes_enter, ← hs]
    rfl
  have depth_eq : s.scopes.depth = δ.depth := by
    rw [hs]
    simp [Declarations.scopes, Scopes.depth, Declarations.depth]
  refine ensures_inLoopScope.mpr ((parts .forStatement (enterLoop s) δ stack entered h).imp ?_ ?_)
  · rintro a t ⟨body, u, rfl, logged⟩
    rw [Call.production, δ.record_begin_loop] at logged
    -- The loop is still open at its end, and what it holds is dropped behind it.
    obtain ⟨log, outer, loops⟩ : ∃ log outer, (replay δ.enter body).loops = log :: outer :=
      List.exists_cons_of_length_eq_add_one logged.depth_eq
    obtain ⟨trace, scopes⟩ :=
      leaveLoop_logged (s := u.emit (.finish Production.forStatement.name)) logged.scopes_eq loops
    have opened := δ.record_begin_loop
    have recorded : Recorded stack δ _ := .bracket (by rw [opened]; exact logged.recorded)
      logged.settled (.finishLoop (by rw [replay_cons, opened]; exact loops))
    refine ⟨_, ?_, ?_, recorded, ?_, ?_⟩
    · have settled := (logged.settled.bracket Production.forStatement.name).append (.removes
        (contents log))
      simpa using settled
    · simp [trace, logged.trace_eq, Call.production]
    · simp [scopes, Call.production]
    · simp [logged.depth_eq]
  · rintro stop t (⟨rfl, rfl⟩ | ⟨inner, u, before, origin, first, productions, rfl, rfl, lost⟩)
    · exact ⟨_, _, _, _, .of_tooDeep hs rfl s.scopes.restore_enter⟩
    · have lost : Lost (Production.forStatement.name :: stack)
          (δ.record (.begin Production.forStatement.name))
          (s.emit (.begin Production.forStatement.name)) inner u before origin first productions :=
        lost.congr rfl
      have inside := lost.depth_eq
      have scopes := lost.scopes_eq
      rw [δ.record_begin_loop] at inside scopes
      have whole : replay δ (.begin Production.forStatement.name :: before ++
            (productions ++ [Production.forStatement.name]).map .finish) =
          (replay δ.enter (before ++ productions.map .finish)).leave := by simp
      refine ⟨_, _, _, _, lost.within ?_ ?_ ⟨rfl, rfl⟩⟩
      · rw [whole, ← restore_scopes inside, ← scopes]
        exact congrArg (Scopes.restore · u.scopes) depth_eq
      · rw [whole, Declarations.depth_leave, inside]
        rfl

end Analyser

/-- What rules are made of tells of its scopes. -/
theorem Assembled.tells {call : Callee} (parts : TellingParts call) {α : Type} {m : Analyser α}
    (h : Assembled call p m) {s : AnalyserState} {δ : Declarations} (hs : s.scopes = δ.scopes)
    (around : Encloses stack p) : Tells m stack δ s := by
  induction h generalizing s δ with
  -- These moves tell nothing and leave the scopes as they are.
  | pure | lookahead | lookingAt | typeOf | beginChain | beginTerm | recordTerm =>
    exact ⟨[], .of_eq hs rfl rfl⟩
  | bind _ _ ihm ihf => exact tells_bind (ihm hs) fun a t ε ht => ihf a ht
  | accept wanted proper =>
    refine tells_accept hs fun taken t ht identifier inside => ?_
    obtain ⟨q, hq, inside⟩ := inside
    obtain rfl := Event.terminal.inj ht
    exact absurd (taken.symm.trans identifier) (proper (around.inside q hq inside))
  | @acceptSeen _ sort _ _ proper _ _ ihf ihg =>
    refine ensures_bind.mpr (ensures_lookingAt.mpr ?_)
    cases seen : sort s.lookahead.type with
    | false => exact ihg hs
    | true =>
      refine ensures_bind.mpr (ensures_lookahead.mpr ?_)
      -- A token of this sort is no identifier.
      refine tells_bind (tells_accept hs fun _ t ht identifier _ => ?_) fun a t ε ht => ihf a ht
      obtain rfl := Event.terminal.inj ht
      rw [identifier, proper] at seen
      cases seen
  | use hp _ ihf => exact tells_use hs hp around fun a t ε ht => ihf a ht
  | refuse syntactic =>
    refine ensures_reject.mpr (tells_rejectAt hs (.inr rfl) ?_)
    rw [syntactic]
    nofun
  | mismatch token m => exact tells_rejectAt hs (.inl rfl) nofun
  | declare x _ =>
    refine ⟨[.add x], .add x, AnalyserState.trace_emit .., .single nofun rfl nofun, ?_, ?_⟩
    · change s.scopes.declare x.identifier x = _
      rw [hs, ← δ.scopes_declare]
      rfl
    · exact δ.depth_declare x
  | checkSum join =>
    refine ensures_checkSum.mpr ?_
    split
    · exact tells_rejectAt hs (.inl rfl) nofun
    · exact ⟨[], .of_eq hs rfl rfl⟩
  | inFreshChain _ ih =>
    refine ensures_inFreshChain.mpr ((ih (s := { s with chain := .fresh }) hs).imp ?_ ?_)
    · rintro a t ⟨es, ht⟩
      exact ⟨es, ht.settled, ht.trace_eq, ht.recorded, ht.scopes_eq, ht.depth_eq⟩
    · rintro stop t ⟨before, origin, first, productions, ht⟩
      exact ⟨before, origin, first, productions, ⟨ht.unwinds.errorFree, ht.unwinds.opens,
        ht.unwinds.arises, ht.unwinds.stop_eq, ht.unwinds.trace_eq⟩, ht.recorded, ht.scopes_eq,
        ht.depth_eq, ht.missing, ht.broken⟩
  | part c plain proper => exact tells_part parts c plain hs (around.part proper)
  | loop proper => exact tells_loop parts hs (around.part (.inl proper))

/-- The productions tell of their scopes, under every limit. -/
theorem tellingParts_analyser (limit : Nat) : TellingParts (analyser limit) := by
  induction limit with
  | zero => exact fun c s δ stack _ _ => .inl ⟨rfl, rfl⟩
  | succ limit ih =>
    intro c s δ stack hs around
    rw [analyser_succ]
    refine ensures_within.mpr (((assembled_rule (analyser limit) c).tells ih
      (s := s.emit (.begin c.production.name)) hs around).imp ?_ ?_)
    · rintro a t ⟨body, ht⟩
      exact ⟨body, t, rfl, ht⟩
    · rintro stop t ⟨before, origin, first, productions, ht⟩
      exact .inr ⟨stop, t, before, origin, first, productions, rfl, rfl, ht⟩

/-- A program is made of the same pieces as the rules are. -/
theorem assembled_program (limit : Nat) :
    Assembled (analyser limit) .statementPart (program limit) :=
  .bind (.part .statementPart nofun (.inl rfl)) fun _ => .require _ fun _ => rfl

/-- A program tells of its scopes. -/
theorem tells_program (limit : Nat) (first : Token) (input : TokenStream) :
    Tells (program limit) [] .empty (.start first input) :=
  (assembled_program limit).tells (tellingParts_analyser limit) rfl ⟨nofun, nofun⟩

/-- An analysis is of a stream that breaks at once, or its program told of its scopes. -/
theorem analyseWithin_cases {P : Analysis Unit → Prop} {limit : Nat} {stream : TokenStream}
    (unlexed : ∀ e, P (.unlexed .empty e))
    (logged : ∀ first input es t, Logged [] .empty (.start first input) es t →
      P (.ofState (.ok ()) t))
    (lost : ∀ first input stop t before origin said productions,
      program limit (.start first input) = .error stop t →
      Lost [] .empty (.start first input) stop t before origin said productions →
      P (.ofState (.error stop) t)) : P (analyseWithin limit stream) := by
  rcases hp : stream.pull with ⟨e | first, input⟩
  · rw [analyseWithin_of_error hp]
    exact unlexed e
  · rw [analyseWithin_of_pull hp]
    have tells := tells_program limit first input
    cases hm : program limit (.start first input) with
    | ok _ t =>
      obtain ⟨es, h⟩ := tells.of_ok hm
      exact logged _ _ _ _ h
    | error stop t =>
      obtain ⟨before, origin, said, productions, h⟩ := tells.of_error hm
      exact lost _ _ _ _ _ _ _ _ hm h

end BlockLang
