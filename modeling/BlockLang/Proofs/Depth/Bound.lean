import BlockLang.Proofs.Depth.Limit
import BlockLang.Proofs.Run.Lookahead

/-!
# How deep an analysis goes

Each token that is taken pays for three productions, and the start of a run for one. A production is
begun only on what is paid for: up to the next token a rule asks for productions of falling ranks,
of which there are three. So the tokens of a program bound the productions that are open at once,
and with them the limit that it needs.

## Main definitions

* `begun events`: how many productions a trace begins
* `Affords k s`: what is paid for covers the trace, and `k` more productions
* `NestingBounded stream`: the tokens of the stream bound the depth of its analyses

## Main results

* `Paced.affords`: what a rule begins is paid for if what its parts begin is
* `affords_analyser`: what a production begins is paid for, under every limit
* `length_accepted_le`: no analysis takes more tokens than stand before the end of the file
* `nesting_is_bounded`: the tokens of every stream bound the depth of its analyses
-/

namespace BlockLang

open Analyser

/-! ## Productions that a trace begins -/

/-- How many productions a trace begins. -/
def begun (events : List Event) : Nat := events.countP (·.kind = .begin)

@[simp] theorem begun_nil : begun [] = 0 := rfl

@[simp] theorem begun_append (es fs : List Event) : begun (es ++ fs) = begun es + begun fs :=
  List.countP_append

@[simp] theorem begun_begin (p : String) : begun [.begin p] = 1 := rfl

@[simp] theorem begun_finish (p : String) : begun [.finish p] = 0 := rfl

@[simp] theorem begun_terminal (t : Token) : begun [.terminal t] = 0 := rfl

@[simp] theorem begun_removes (vs : List Variable) : begun (vs.map Event.remove) = 0 := by
  simp [begun, Event.kind]

@[simp] theorem begun_farewell (stop : Stop) (p : String) (lookahead : Token) :
    begun (stop.farewell p lookahead) = 0 := by
  cases stop <;> rfl

theorem begun_of_flat {es : List Event} (h : ∀ e ∈ es, e.Flat) : begun es = 0 :=
  List.countP_eq_zero.mpr fun e he => by simpa using (h e he).1

theorem begun_le_of_prefix {es fs : List Event} (h : es <+: fs) : begun es ≤ begun fs :=
  h.sublist.countP_le

/-- Only productions that were begun are open. -/
theorem length_openAfter_le (stack : List String) (events : List Event) :
    (openAfter stack events).length ≤ stack.length + begun events := by
  induction events generalizing stack with
  | nil => exact Nat.le_refl _
  | cons e events ih =>
    have split : begun (e :: events) = begun [e] + begun events := begun_append [e] events
    cases e with
    | begin p =>
      have rest := ih (p :: stack)
      rw [List.length_cons] at rest
      rw [split, begun_begin, openAfter]
      omega
    | finish p =>
      have rest := ih stack.tail
      rw [List.length_tail] at rest
      rw [split, begun_finish, openAfter]
      omega
    | _ => exact (ih stack).trans (by omega)

theorem length_openProductions_le (events : List Event) :
    (openProductions events).length ≤ begun events := by
  simpa [openProductions] using length_openAfter_le [] events

/-! ## What is paid for -/

/-- At every moment so far the tokens that were taken pay for the productions that were begun, and
they leave `k` more to be begun. No end of the file was taken. -/
structure Affords (k : Nat) (s : AnalyserState) : Prop where
  bounded : ∀ before, before <+: s.trace → begun before ≤ 3 * (accepted before).length + 1
  spare : begun s.trace + k ≤ 3 * s.accepted.length + 1
  proper : ∀ t ∈ s.accepted, t.type ≠ .endOfFile

namespace Affords

variable {k n : Nat} {s t : AnalyserState} {es : List Event}

theorem mono (h : Affords n s) (hk : k ≤ n) : Affords k s :=
  ⟨h.bounded, (Nat.add_le_add_left hk _).trans h.spare, h.proper⟩

/-- What a run tells without taking a token has to be paid for. -/
theorem tell (h : Affords (k + begun es) s) (told : t.trace = s.trace ++ es)
    (taken : t.accepted = s.accepted) : Affords k t where
  bounded before hp := by
    rw [told] at hp
    rcases List.prefix_or_prefix_of_prefix hp (List.prefix_append s.trace es) with inside | behind
    · exact h.bounded before inside
    · -- The moment is one within the new piece, which is paid for as a whole.
      obtain ⟨piece, rfl⟩ := behind
      have le : begun piece ≤ begun es :=
        begun_le_of_prefix ((List.prefix_append_right_inj _).mp hp)
      have more : s.accepted.length ≤ (accepted (s.trace ++ piece)).length := by
        simp [AnalyserState.accepted]
      have spare := h.spare
      rw [begun_append]
      omega
  spare := by
    have spare := h.spare
    rw [told, begun_append, taken]
    omega
  proper := taken ▸ h.proper

theorem silent (h : Affords k s) (told : t.trace = s.trace ++ es)
    (taken : t.accepted = s.accepted) (none : begun es = 0) : Affords k t :=
  tell (none.symm ▸ h) told taken

theorem congr (h : Affords k s) (told : t.trace = s.trace) : Affords k t :=
  h.silent (told.trans (List.append_nil _).symm) (congrArg accepted told) begun_nil

theorem idle (h : Affords k s) (idle : Idle s t) : Affords k t := by
  obtain ⟨-, taken, es, flat, told⟩ := idle
  exact h.silent told taken (begun_of_flat flat)

/-- A production costs one. -/
theorem begin (h : Affords (k + 1) s) (p : String) : Affords k (s.emit (.begin p)) := by
  refine tell ?_ (AnalyserState.trace_emit ..) (by simp)
  exact h

/-- A token that is taken pays for three. -/
theorem take {token : Token} (h : Affords k s) (told : t.trace = s.trace ++ [.terminal token])
    (proper : token.type ≠ .endOfFile) : Affords (k + 3) t where
  bounded before hp := by
    rw [told] at hp
    rcases List.prefix_concat_iff.mp hp with rfl | inside
    · have spare := h.spare
      simp only [begun_append, begun_terminal, accepted_append, accepted_terminal,
        List.length_append, List.length_singleton, AnalyserState.accepted] at spare ⊢
      omega
    · exact h.bounded before inside
  spare := by
    have spare := h.spare
    simp only [told, begun_append, begun_terminal, accepted_append, accepted_terminal,
      List.length_append, List.length_singleton, AnalyserState.accepted] at spare ⊢
    omega
  proper := by
    have old := h.proper
    simp only [AnalyserState.accepted, told, accepted_append, accepted_terminal, List.mem_append,
      List.mem_singleton] at old ⊢
    rintro u (hu | rfl)
    · exact old u hu
    · exact proper

end Affords

/-- How many productions may be begun at a place in the rule of a production of rank `r`. `b` says
whether the rule has surely taken a token. -/
def allowance (r : Nat) (b : Bool) : Nat := if b then 3 else r - 1

/-- What the move begins is paid for: with `k` productions to be begun before it, `n` are left when
it answers. -/
def Pays {α : Type} (k : Nat) (m : Analyser α) (n : Nat) : Prop :=
  ∀ s, Affords k s → Ensures m (fun _ t => Affords n t) (fun _ t => Affords 0 t) s

section Pays

variable {α β : Type} {k n l r : Nat} {b b' : Bool} {m : Analyser α}

theorem pays_still (h : Still m) : Pays k m k := fun s hs =>
  (h s).imp (fun _ _ ht => hs.idle ht) fun _ _ ht => (hs.idle ht.2).mono (Nat.zero_le _)

theorem pays_reject (cause : Token → Cause) : Pays k (reject cause : Analyser α) n := fun _ hs =>
  (hs.mono (Nat.zero_le k)).silent (AnalyserState.trace_emit ..)
    ((AnalyserState.accepted_emit ..).trans (List.append_nil _)) rfl

theorem pays_accept {wanted : TokenType} (h : wanted ≠ .endOfFile) : Pays k (accept wanted) 3 := by
  intro s hs
  refine ensures_accept (fun next input hl _ => ?_) (fun e input hl _ => ?_) fun hl => ?_
  · exact (hs.take (AnalyserState.trace_advance ..) (hl ▸ h)).mono (Nat.le_add_left 3 k)
  · refine (Affords.take hs ?_ (hl ▸ h : s.lookahead.type ≠ _)).mono (Nat.zero_le _)
    exact AnalyserState.trace_emit s _
  · exact pays_reject (α := Token) (n := 3) (.expected wanted) s hs

theorem Pays.bind {f : α → Analyser β} (h : Pays k m n) (h' : ∀ a, Pays n (f a) l) :
    Pays k (m >>= f) l := fun s hs =>
  ensures_bind.mpr ((h s hs).answer fun a t ht => h' a t ht)

theorem pays_acceptSeen {sort : TokenType → Bool} {f : Token → Analyser α}
    (h : sort .endOfFile = false) (hf : ∀ a, Pays 3 (f a) n) (hm : Pays k m n) :
    Pays k (lookingAt sort >>= fun seen =>
      if seen = true then lookahead >>= fun t => accept t.type >>= f else m) n := by
  intro s hs
  rw [Ensures, acceptSeen_apply]
  cases seen : sort s.lookahead.type with
  | true =>
    -- The token is not the end of the file, which is not of this sort.
    have proper : s.lookahead.type ≠ .endOfFile := fun he => by simp [he, h] at seen
    exact (pays_accept proper).bind hf s hs
  | false => exact hm s hs

theorem Pays.inFreshChain (h : Pays k m n) : Pays k (inFreshChain m) n := fun s hs =>
  ensures_inFreshChain.mpr ((h { s with chain := .fresh } (hs.congr rfl)).imp
    (fun _ _ ht => ht.congr rfl) fun _ _ ht => ht.congr rfl)

theorem Pays.inLoopScope (h : Pays k m n) : Pays k (inLoopScope m) n := by
  intro s hs
  refine ensures_inLoopScope.mpr ((h (enterLoop s) (hs.congr rfl)).imp (fun _ t ht => ?_)
    fun _ _ ht => ht.congr rfl)
  obtain ⟨removed, dropped⟩ := AnalyserState.trace_leaveLoop t
  exact ht.silent dropped (AnalyserState.accepted_leaveLoop t) (begun_removes removed)

theorem Pays.within (p : Production) (h : Pays k m n) : Pays (k + 1) (within p m) n := by
  intro s hs
  refine ensures_within.mpr ((h _ (hs.begin p.name)).imp (fun _ t ht => ?_) fun stop t ht => ?_)
  · exact ht.silent (AnalyserState.trace_emit ..) (by simp) rfl
  · exact ht.silent (AnalyserState.trace_abandon ..) (by simp) (begun_farewell ..)

/-- A part of a rule is allowed where the rule asks for it. -/
theorem rank_le_allowance {c : Call} (h : b = true ∨ c.production.rank < r) :
    c.production.rank ≤ allowance r b := by
  have le := c.production.rank_le
  rcases h with rfl | h
  · exact le
  · cases b with
    | true => exact le
    | false => exact Nat.le_sub_one_of_lt h

/-- What a rule begins is paid for if what its parts begin is. -/
theorem Paced.affords {m : Callee → Analyser α} (h : Paced r b m b') {call : Callee}
    (parts : ∀ c, Pays c.production.rank (call c) 3) :
    Pays (allowance r b) (m call) (allowance r b') := by
  induction h with
  | still still => exact pays_still still
  | refuse cause => exact pays_reject cause
  | accept wanted h => exact pays_accept h
  | acceptSeen h _ _ ihf ihg => exact pays_acceptSeen h ihf ihg
  | part c h => exact fun s hs => parts c s (hs.mono (rank_le_allowance h))
  | bind _ _ ihm ihf => exact ihm.bind ihf
  | inFreshChain _ ih => exact ih.inFreshChain
  | inLoopScope _ ih => exact ih.inLoopScope

/-- What a production begins is paid for, under every limit. -/
theorem affords_analyser (limit : Nat) (c : Call) :
    Pays c.production.rank (analyser limit c) 3 := by
  induction limit generalizing c with
  | zero => exact fun s hs => hs.mono (Nat.zero_le _)
  | succ limit ih =>
    have whole := ((paced_rule c).affords ih).within c.production
    rwa [allowance, if_neg nofun, Nat.sub_add_cancel c.production.rank_pos] at whole

end Pays

/-! ## Analyses -/

variable {limit : Nat} {stream : TokenStream}

/-- The start of a run pays for one production, and each token that it takes for three. -/
theorem affords_program (limit : Nat) (first : Token) (input : TokenStream) :
    Affords 0 (endState (program limit (.start first input))) := by
  -- The first production is paid for before any token is taken.
  have start : Affords 1 (.start first input) := by
    refine ⟨fun before hp => ?_, Nat.le_refl 1, by simp⟩
    rw [AnalyserState.trace_start, List.prefix_nil] at hp
    exact hp ▸ Nat.zero_le 1
  have run : Pays 1 (program limit) 3 := paced_programBy.affords (affords_analyser limit)
  exact ((run _ start).answer fun _ _ ht => ht.mono (Nat.zero_le 3)).endState

/-- At every moment of an analysis the tokens pay for the productions, and no analysis takes the end
of the file. -/
theorem begun_le_and_proper (limit : Nat) (stream : TokenStream) :
    (∀ before, before <+: (analyseWithin limit stream).events.toList →
      begun before ≤ 3 * (accepted before).length + 1) ∧
    ∀ t ∈ accepted (analyseWithin limit stream).events.toList, t.type ≠ .endOfFile := by
  rcases hp : stream.pull with ⟨e | first, input⟩
  · rw [analyseWithin_of_error hp]
    refine ⟨fun before none => ?_, by simp [Analysis.unlexed, accepted]⟩
    obtain rfl : before = [] := List.prefix_nil.mp none
    exact Nat.zero_le 1
  · rw [analyseWithin_of_pull hp]
    have affords := affords_program limit first input
    cases hr : program limit (.start first input) <;> rw [hr] at affords <;>
      exact ⟨affords.bounded, affords.proper⟩

/-- No analysis takes more tokens than stand before an error or the end of the file. -/
theorem length_accepted_le {w : List Token} {last : Delivery}
    (delivers : stream.front (w.length + 1) = w.map .ok ++ [last])
    (ends : ∀ t, last = .ok t → t.type = .endOfFile) (limit : Nat) :
    (accepted (analyseWithin limit stream).events.toList).length ≤ w.length := by
  by_contra more
  obtain ⟨next, taken⟩ := exists_front_eq limit stream
  obtain ⟨k, hk⟩ := Nat.exists_eq_add_of_lt (Nat.lt_of_not_le more)
  -- The delivery behind `w` would be one of the tokens that are taken.
  have among : last ∈ (accepted (analyseWithin limit stream).events.toList).map Except.ok := by
    have front := congrArg (·.take (w.length + 1)) taken
    rw [hk, show w.length + k + 1 + 1 = (w.length + 1) + (k + 1) by omega, TokenStream.front_add,
      List.take_left' (TokenStream.length_front ..), delivers,
      List.take_append_of_le_length (by simp; omega)] at front
    exact List.mem_of_mem_take (front ▸ List.mem_append_right _ (List.mem_singleton_self last))
  obtain ⟨t, ht, rfl⟩ := List.mem_map.mp among
  exact (begun_le_and_proper limit stream).2 t ht (ends t rfl)

/-- The tokens of the stream bound the depth of its analyses. At every moment of an analysis, under
every limit, three productions for each token that was taken and one more cover those that were
begun, and so those that are open. An analysis in which the productions call each other freely ends,
and a limit that covers the tokens up to the end of the file does not stop one. -/
structure NestingBounded (stream : TokenStream) : Prop where
  begun_le : ∀ limit before, before <+: (analyseWithin limit stream).events.toList →
    begun before ≤ 3 * (accepted before).length + 1
  open_le : ∀ limit before, before <+: (analyseWithin limit stream).events.toList →
    (openProductions before).length ≤ 3 * (accepted before).length + 1
  free : ∃ call, (∀ call', Unlimited call' ↔ call' = call) ∧
    analyse stream = runFrom .empty (programBy call) stream
  ends : (analyse stream).outcome ≠ .error .tooDeep
  enough : ∀ limit (w : List Token) (last : Delivery),
    stream.front (w.length + 1) = w.map .ok ++ [last] →
    (∀ t, last = .ok t → t.type = .endOfFile) → 3 * w.length + 1 ≤ limit →
    (analyseWithin limit stream).outcome ≠ .error .tooDeep

/-- The tokens of every stream bound the depth of its analyses. -/
theorem nesting_is_bounded (stream : TokenStream) : NestingBounded stream where
  begun_le limit := (begun_le_and_proper limit stream).1
  open_le limit before hp :=
    (length_openProductions_le before).trans ((begun_le_and_proper limit stream).1 before hp)
  free := ⟨unlimited, fun _ => unlimited_iff, analyse_eq_analyseFreely stream⟩
  ends := analyse_eq_analyseFreely stream ▸ outcome_analyseFreely_ne stream
  enough limit w last delivers ends enough deep := by
    obtain ⟨before, hp, more⟩ := tooDeep_iff_exists_prefix limit stream |>.mp deep
    rw [← analyse_eq_analyseFreely] at hp
    have paid := (begun_le_and_proper _ stream).1 before hp
    have few : (accepted before).length ≤ w.length :=
      ((hp.sublist.filterMap _).length_le).trans (length_accepted_le delivers ends _)
    have covered := length_openProductions_le before
    omega

end BlockLang
