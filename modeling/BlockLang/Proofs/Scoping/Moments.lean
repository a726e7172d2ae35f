import BlockLang.Proofs.Reading.Leaves
import BlockLang.Proofs.Scoping.Log

/-!
# Moments of a run

A run asks for declarations at some moments, each of which is a state of the analyser. Its scopes
then hold what the trace so far declares. In between the run tells of productions and tokens, and
what stands for values tells of nothing else: it declares nothing and opens no loop.

## Main definitions

* `Between p s`: the state is one between moves of the rule of `p`
* `Analyser.Checks limit p m s u`: in the run of the move from `s`, a declaration is asked for in
  the state `u`
* `Event.Quiet e`: the entry has to do neither with a declaration nor with a loop

## Main results

* `Assembled.between`: behind a move of a rule, the state is again one between its moves
* `Analyser.Checks.scopes_eq`: a declaration is asked for in scopes that hold what the trace
  declares
* `replay_of_quiet`: quiet entries leave the declarations as they are
* `tellsQuietly_analyser`: productions that stand for values tell quiet entries only
-/

namespace BlockLang

open Analyser

variable {α β : Type} {m : Analyser α} {f : α → Analyser β} {s t u : AnalyserState}
  {p q : Production} {call : Callee} {limit : Nat}

/-! ## Between the moves of a rule -/

/-- The state is one between moves of the rule of `p`: the scopes hold what the trace declares, and
the productions that are open are those around a move of the rule. -/
structure Between (p : Production) (s : AnalyserState) : Prop where
  scopes_eq : s.scopes = (replay .empty s.trace).scopes
  around : Encloses (openAfter [] s.trace) p

namespace Between

/-- A run starts between the moves of the production of a program. -/
theorem start (first : Token) (input : TokenStream) :
    Between .statementPart (.start first input) :=
  ⟨rfl, nofun, nofun⟩

theorem congr (h : Between p s) (hs : t.scopes = s.scopes) (ht : t.trace = s.trace) :
    Between p t :=
  ⟨by rw [hs, ht]; exact h.scopes_eq, by rw [ht]; exact h.around⟩

/-- A token was taken. -/
theorem terminal {token : Token} (h : Between p s) (hs : t.scopes = s.scopes)
    (ht : t.trace = s.trace ++ [.terminal token]) : Between p t := by
  constructor
  · rw [hs, ht, replay_append]
    exact h.scopes_eq
  · rw [ht, openAfter_append]
    exact h.around

/-- A production that is no loop begins. -/
theorem begin (h : Between p s) (plain : q ≠ .forStatement)
    (proper : p.readsOnly = false ∨ q.readsOnly) : Between q (s.emit (.begin q.name)) := by
  constructor
  · rw [AnalyserState.trace_emit, replay_append, replay_cons, replay_nil,
      Declarations.record_begin_of_ne fun same => plain (Production.name_injective same)]
    exact h.scopes_eq
  · rw [AnalyserState.trace_emit, openAfter_append]
    exact h.around.part proper

/-- A loop begins in a scope of its own. -/
theorem beginLoop (h : Between p s) (outside : p.readsOnly = false) :
    Between .forStatement ((enterLoop s).emit (.begin Production.forStatement.name)) := by
  constructor
  · rw [AnalyserState.trace_emit, replay_append, replay_cons, replay_nil,
      Declarations.record_begin_loop, Declarations.scopes_enter, AnalyserState.trace_enterLoop,
      ← h.scopes_eq]
    rfl
  · rw [AnalyserState.trace_emit, openAfter_append]
    exact h.around.part (.inl outside)

end Between

/-- Behind a move of the rule, the state is again one between its moves. -/
theorem Assembled.between (h : Assembled call p m) (parts : TellingParts call) (hs : Between p s) :
    Ensures m (fun _ t => Between p t) (fun _ _ => True) s := by
  refine (h.tells parts hs.scopes_eq hs.around).imp (fun a t ht => ?_) fun _ _ _ => trivial
  obtain ⟨es, logged⟩ := ht
  constructor
  · rw [logged.trace_eq, replay_append]
    exact logged.scopes_eq
  · rw [logged.trace_eq, openAfter_append, logged.settled.closed]
    exact hs.around

/-! ## Checks -/

/-- In the run of the move from the first state, a declaration of the lookahead is asked for in the
second one. The move is one that the rule of `p` is made of, with parts under a limit. -/
inductive Analyser.Checks : Nat → Production → {α : Type} → Analyser α → AnalyserState →
    AnalyserState → Prop
  | use {limit : Nat} {p : Production} {α : Type} {f : ValueType → Analyser α}
      (s : AnalyserState) :
      Checks limit p (requireDeclared >>= fun a => expect .identifier >>= fun _ => f a) s s
  | used {limit : Nat} {p : Production} {α : Type} {f : ValueType → Analyser α} {a : ValueType}
      {s t u : AnalyserState} (check : requireDeclared s = .ok a s)
      (take : expect .identifier s = .ok () t) (rest : Checks limit p (f a) t u) :
      Checks limit p (requireDeclared >>= fun a => expect .identifier >>= fun _ => f a) s u
  | first {limit : Nat} {p : Production} {α β : Type} {m : Analyser α} {f : α → Analyser β}
      {s u : AnalyserState} (inside : Checks limit p m s u) : Checks limit p (m >>= f) s u
  | next {limit : Nat} {p : Production} {α β : Type} {m : Analyser α} {f : α → Analyser β} {a : α}
      {s t u : AnalyserState} (assembled : Assembled (analyser limit) p m) (run : m s = .ok a t)
      (rest : Checks limit p (f a) t u) : Checks limit p (m >>= f) s u
  | inFreshChain {limit : Nat} {p : Production} {α : Type} {body : Analyser α}
      {s u : AnalyserState} (inside : Checks limit p body { s with chain := .fresh } u) :
      Checks limit p (inFreshChain body) s u
  | part {limit : Nat} {p : Production} {c : Call} {s u : AnalyserState}
      (plain : c.production ≠ .forStatement) (proper : p.readsOnly = false ∨ c.production.readsOnly)
      (inside : Checks limit c.production (rule (analyser limit) c)
        (s.emit (.begin c.production.name)) u) : Checks (limit + 1) p (analyser (limit + 1) c) s u
  | loop {limit : Nat} {p : Production} {s u : AnalyserState} (outside : p.readsOnly = false)
      (inside : Checks limit .forStatement (rule (analyser limit) .forStatement)
        ((enterLoop s).emit (.begin Production.forStatement.name)) u) :
      Checks (limit + 1) p (inLoopScope (analyser (limit + 1) .forStatement)) s u

/-- A declaration is asked for in scopes that hold what the trace declares. -/
theorem Analyser.Checks.scopes_eq (h : Checks limit p m s u) (hs : Between p s) :
    u.scopes = (replay .empty u.trace).scopes := by
  induction h with
  | use s => exact hs.scopes_eq
  | @used _ _ _ _ _ s t _ _ take _ ih =>
    have taken : Ensures (expect .identifier)
        (fun _ t => t.scopes = s.scopes ∧ ∃ token, t.trace = s.trace ++ [.terminal token])
        (fun _ _ => True) s := by
      refine ensures_expect.mpr (ensures_accept (fun next input _ _ => ?_) (fun _ _ _ _ => trivial)
        fun _ => trivial)
      exact ⟨rfl, _, AnalyserState.trace_advance ..⟩
    obtain ⟨scopes, token, told⟩ := taken.of_ok take
    exact ih (hs.terminal scopes told)
  | first _ ih => exact ih hs
  | next assembled run _ ih =>
    exact ih ((assembled.between (tellingParts_analyser _) hs).of_ok run)
  | inFreshChain _ ih => exact ih (hs.congr rfl rfl)
  | part plain proper _ ih => exact ih (hs.begin plain proper)
  | loop outside _ ih => exact ih (hs.beginLoop outside)

/-! ## Moves in turn -/

/-- What holds of the answer may make use of the run. -/
theorem Analyser.Ensures.answer_of_run {P Q : α → AnalyserState → Prop}
    {E : Stop → AnalyserState → Prop} (h : Ensures m P E s)
    (hQ : ∀ a t, m s = .ok a t → P a t → Q a t) : Ensures m Q E s := by
  cases hm : m s with
  | ok a t =>
    have after := hQ a t hm (h.of_ok hm)
    simpa only [Ensures, hm] using after
  | error stop t =>
    have stopped := h.of_error hm
    simpa only [Ensures, hm] using stopped

/-- What holds of an answer and what holds of a stop may be shown one by one. -/
theorem Analyser.Ensures.and_stop {Q : α → AnalyserState → Prop} {E : Stop → AnalyserState → Prop}
    (h : Ensures m Q (fun _ _ => True) s) (h' : Ensures m (fun _ _ => True) E s) :
    Ensures m Q E s :=
  h'.answer_of_run fun _ _ run _ => h.of_ok run

/-- Two moves in turn, the second of which starts where the first one ends. -/
theorem Analyser.ensures_bind_of {P : α → AnalyserState → Prop} {Q : β → AnalyserState → Prop}
    {E : Stop → AnalyserState → Prop} (h : Ensures m P E s)
    (next : ∀ a t, m s = .ok a t → P a t → Ensures (f a) Q E t) : Ensures (m >>= f) Q E s :=
  ensures_bind.mpr (h.answer_of_run next)

/-! ## Quiet entries -/

/-- A property of each entry and those before it holds along one more entry. -/
theorem forall_split_concat {P : List Event → Event → Prop} {events : List Event} {e : Event} :
    (∀ before e' after, events ++ [e] = before ++ e' :: after → P before e') ↔
      (∀ before e' after, events = before ++ e' :: after → P before e') ∧ P events e := by
  constructor
  · intro h
    exact ⟨fun before e' after split => h before e' (after ++ [e]) (by simp [split]),
      h events e [] rfl⟩
  · rintro ⟨h, he⟩ before e' after split
    rcases List.eq_nil_or_concat' after with rfl | ⟨after, last, rfl⟩
    · obtain ⟨rfl, same⟩ := List.append_inj' split rfl
      exact List.singleton_inj.mp same ▸ he
    · rw [← List.cons_append, ← List.append_assoc] at split
      obtain ⟨rfl, -⟩ := List.append_inj' split rfl
      exact h before e' after rfl

/-- The entry declares nothing, and it neither begins nor ends a loop. -/
def Event.Quiet (e : Event) : Prop :=
  e.kind ≠ .add ∧ e ≠ .begin Production.forStatement.name ∧
    e ≠ .finish Production.forStatement.name

variable {es fs before after : List Event} {e : Event} {δ : Declarations}

/-- Quiet entries leave the declarations as they are. -/
theorem replay_of_quiet (h : ∀ e ∈ es, e.Quiet) : replay δ es = δ := by
  induction es with
  | nil => rfl
  | cons e es ih =>
    obtain ⟨first, rest⟩ := List.forall_mem_cons.mp h
    have same : δ.record e = δ := by
      cases e with
      | begin q => exact δ.record_begin_of_ne fun loop => first.2.1 (loop ▸ rfl)
      | finish q => exact δ.record_finish_of_ne fun loop => first.2.2 (loop ▸ rfl)
      | add v => exact absurd rfl first.1
      | terminal _ | remove _ | error _ _ => rfl
    rw [replay_cons, same, ih rest]

/-- A move that answers has told quiet entries. -/
def Analyser.TellsQuietly (m : Analyser α) : Prop :=
  ∀ s, Ensures m (fun _ t => ∃ es, t.trace = s.trace ++ es ∧ ∀ e ∈ es, e.Quiet)
    (fun _ _ => True) s

theorem Analyser.tellsQuietly_of_same
    (h : ∀ s, Ensures m (fun _ t => t.trace = s.trace) (fun _ _ => True) s) : TellsQuietly m :=
  fun s => (h s).answer fun _ t ht => ⟨[], by simpa using ht, List.forall_mem_nil _⟩

theorem Analyser.TellsQuietly.bind (hm : TellsQuietly m) (hf : ∀ a, TellsQuietly (f a)) :
    TellsQuietly (m >>= f) := by
  refine fun s => ensures_bind.mpr ((hm s).answer fun a t ht => ?_)
  obtain ⟨es, ht, quiet⟩ := ht
  refine (hf a t).answer fun b u hu => ?_
  obtain ⟨fs, hu, quiet'⟩ := hu
  refine ⟨es ++ fs, by rw [hu, ht, List.append_assoc], fun e he => ?_⟩
  exact (List.mem_append.mp he).elim (quiet e) (quiet' e)

theorem Analyser.tellsQuietly_accept (wanted : TokenType) : TellsQuietly (accept wanted) := by
  intro s
  refine ensures_accept (fun next input _ _ => ?_) (fun _ _ _ _ => trivial) fun _ => trivial
  exact ⟨[.terminal s.lookahead], AnalyserState.trace_advance .., by
    simp [Event.Quiet, Event.kind]⟩

theorem Analyser.tellsQuietly_requireDeclared : TellsQuietly requireDeclared := by
  refine tellsQuietly_of_same fun s => ensures_requireDeclared.mpr ?_
  split
  · split
    · rfl
    · trivial
  · rfl

theorem Analyser.tellsQuietly_checkSum (join : Option Join) : TellsQuietly (checkSum join) := by
  refine tellsQuietly_of_same fun s => ensures_checkSum.mpr ?_
  split
  · trivial
  · rfl

/-- What stands for values declares nothing and opens no loop. -/
theorem Assembled.quiet (h : Assembled call p m) (hp : p.readsOnly)
    (parts : ∀ c : Call, c.production.readsOnly → TellsQuietly (call c)) : TellsQuietly m := by
  induction h with
  | pure | lookahead | lookingAt | typeOf | beginChain | beginTerm | recordTerm =>
    exact tellsQuietly_of_same fun _ => rfl
  | bind _ _ ihm ihf => exact ihm.bind ihf
  | accept wanted _ => exact tellsQuietly_accept wanted
  | acceptSeen _ _ _ ihf ihg =>
    refine .bind (tellsQuietly_of_same fun _ => rfl) fun seen => ?_
    cases seen
    · exact ihg
    · exact .bind (tellsQuietly_of_same fun _ => rfl) fun t => .bind (tellsQuietly_accept _) ihf
  | use _ _ ihf =>
    refine tellsQuietly_requireDeclared.bind fun t => ?_
    exact .bind (.bind (tellsQuietly_accept _) fun _ => tellsQuietly_of_same fun _ => rfl)
      fun _ => ihf t
  | refuse | mismatch => exact fun _ => trivial
  | declare v assignment =>
    subst assignment
    cases hp
  | checkSum join => exact tellsQuietly_checkSum join
  | inFreshChain _ ih => exact fun s => ensures_inFreshChain.mpr ((ih _).answer fun _ _ => id)
  | part c _ inside =>
    refine parts c (inside.resolve_left fun outside => ?_)
    cases hp.symm.trans outside
  | loop outside => cases hp.symm.trans outside

/-- Productions that stand for values declare nothing and open no loop, under every limit. -/
theorem tellsQuietly_analyser (limit : Nat) (c : Call) (hc : c.production.readsOnly) :
    TellsQuietly (analyser limit c) := by
  induction limit generalizing c with
  | zero => exact fun _ => trivial
  | succ limit ih =>
    have plain : c.production.name ≠ Production.forStatement.name := by
      intro same
      rw [Production.name_injective same] at hc
      cases hc
    intro s
    rw [analyser_succ, ensures_within]
    refine ((assembled_rule (analyser limit) c).quiet hc ih _).answer fun a t ht => ?_
    obtain ⟨es, ht, quiet⟩ := ht
    refine ⟨.begin c.production.name :: es ++ [.finish c.production.name], by simp [ht], ?_⟩
    simpa [or_imp, forall_and, Event.Quiet, Event.kind, plain] using quiet

end BlockLang
