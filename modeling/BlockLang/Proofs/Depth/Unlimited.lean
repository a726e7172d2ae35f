import BlockLang.Proofs.Depth.Pace

/-!
# Analysis without a limit

A stream has finitely many tokens, and each production takes at least one before it answers. So a
limit that is large enough for the tokens that are left is no limit at all: the analysis under it is
the one in which the productions call each other freely.

## Main definitions

* `AnalyserState.remaining s`: how many tokens may still be taken
* `room c s`: a limit that the production of `c` cannot reach from `s`
* `Unlimited call`: the productions call each other freely
* `unlimited`: the analysis of a production without a limit

## Main results

* `Paced.agrees`: with parts that do the same, rules do the same
* `analyser_eq_of_room_le`: limits that are large enough are alike
* `unlimited_iff`: there is one analysis without a limit
-/

namespace BlockLang

/-- What a token that is pulled leaves to be taken, itself included, is in the stream before it. -/
theorem TokenStream.le_length_of_pull {stream input : TokenStream} {next : Token}
    (hp : stream.pull = (.ok next, input)) :
    (if next.type = .endOfFile then 0 else 1) + input.items.length ≤ stream.items.length := by
  obtain ⟨items, last⟩ := stream
  cases items with
  | nil =>
    -- Behind the last item comes the end of the file.
    cases hp
    exact Nat.le_refl 0
  | cons item items =>
    cases hp
    rw [List.length_cons, Nat.add_comm]
    exact Nat.add_le_add_left (by split <;> decide) _

namespace AnalyserState

variable {s t : AnalyserState}

/-- How many tokens may still be taken from the lookahead on. The end of the file is not taken. -/
def remaining (s : AnalyserState) : Nat :=
  (if s.lookahead.type = .endOfFile then 0 else 1) + s.input.items.length

theorem remaining_eq (h : t.place = s.place) : t.remaining = s.remaining := by
  obtain ⟨lookahead, input⟩ := Prod.ext_iff.mp h
  simp only [place] at lookahead input
  rw [remaining, remaining, lookahead, input]

/-- Behind a token that is taken there are fewer. -/
theorem remaining_advance_lt {next : Token} {input : TokenStream}
    (h : s.lookahead.type ≠ .endOfFile) (hp : s.input.pull = (.ok next, input)) :
    (s.advance next input).remaining < s.remaining := by
  rw [remaining, remaining, if_neg h, Nat.add_comm 1]
  exact Nat.lt_succ_of_le (TokenStream.le_length_of_pull hp)

end AnalyserState

/-- A limit that the production of `c` cannot reach from `s`. -/
def room (c : Call) (s : AnalyserState) : Nat := 3 * s.remaining + c.production.rank

theorem room_pos (c : Call) (s : AnalyserState) : 0 < room c s :=
  Nat.lt_of_lt_of_le c.production.rank_pos (Nat.le_add_left _ _)

open Analyser

/-- The state is one of a rule that began with `n` tokens left, and has surely taken one if `b`. -/
def Spent (n : Nat) (b : Bool) (s : AnalyserState) : Prop := s.remaining + b.toNat ≤ n

section Agreement

variable {α β : Type} {F G : Callee} {n r : Nat} {b b' : Bool} {s t : AnalyserState}

/-- The production answers with fewer tokens left, and no limit stops it. -/
def Descends (call : Callee) (c : Call) (s : AnalyserState) : Prop :=
  Ensures (call c) (fun _ t => t.remaining < s.remaining) (fun stop _ => stop ≠ .tooDeep) s

theorem Spent.congr (h : Spent n b s) (hp : t.place = s.place) : Spent n b t := by
  rw [Spent, AnalyserState.remaining_eq hp]
  exact h

theorem Spent.of_lt (h : Spent n b s) (ht : t.remaining < s.remaining) : Spent n true t :=
  (Nat.succ_le_of_lt ht).trans ((Nat.le_add_right _ _).trans h)

/-- The parts of a rule have less room than the production itself. -/
theorem Spent.room_lt {c : Call} (hs : Spent n b s) (h : b = true ∨ c.production.rank < r)
    (hr : 0 < r) : room c s < 3 * n + r := by
  have le := c.production.rank_le
  rcases h with rfl | h
  · rw [Spent, Bool.toNat_true] at hs
    rw [room]
    omega
  · have few : s.remaining ≤ n := (Nat.le_add_right _ _).trans hs
    rw [room]
    omega

/-- The move does the same with either way of analysing its parts, and no limit stops it. -/
def Agree (F G : Callee) (m : Callee → Analyser α) (n : Nat) (b : Bool) (s : AnalyserState) :
    Prop :=
  m F s = m G s ∧ Ensures (m F) (fun _ t => Spent n b t) (fun stop _ => stop ≠ .tooDeep) s

theorem Agree.congr {m m' : Callee → Analyser α} (h : Agree F G m' n b s)
    (same : ∀ call, m call s = m' call s) : Agree F G m n b s := by
  simpa only [Agree, Ensures, same] using h

theorem agree_still {m : Analyser α} (h : Still m) (hs : Spent n b s) :
    Agree F G (fun _ => m) n b s :=
  ⟨rfl, (h s).imp (fun _ _ ht => hs.congr ht.place_eq) fun _ _ ht => ht.1⟩

theorem agree_accept {wanted : TokenType} (h : wanted ≠ .endOfFile) (hs : Spent n b s) :
    Agree F G (fun _ => accept wanted) n true s := by
  refine ⟨rfl, ensures_accept (fun next input hl hp => ?_) (fun _ _ _ _ => nofun) fun _ => nofun⟩
  exact hs.of_lt (AnalyserState.remaining_advance_lt (hl ▸ h) hp)

theorem agree_bind {m : Callee → Analyser α} {f : Callee → α → Analyser β} {c : Bool}
    (hm : Agree F G m n b s) (hf : ∀ a t, Spent n b t → Agree F G (f · a) n c t) :
    Agree F G (fun call => m call >>= f call) n c s := by
  obtain ⟨same, ensures⟩ := hm
  constructor
  · cases hr : m F s with
    | ok a t =>
      calc (m F >>= f F) s = f F a t := bind_of_ok hr
        _ = f G a t := (hf a t (ensures.of_ok hr)).1
        _ = (m G >>= f G) s := (bind_of_ok (same.symm.trans hr)).symm
    | error stop t => exact (bind_of_error hr).trans (bind_of_error (same.symm.trans hr)).symm
  · rw [ensures_bind]
    exact ensures.answer fun a t ht => (hf a t ht).2

/-- If parts with less room do the same, then moves of the rule do. -/
theorem Paced.agrees {m : Callee → Analyser α} (h : Paced r b m b')
    (parts : ∀ c s, room c s < 3 * n + r → F c s = G c s ∧ Descends F c s) (hr : 0 < r)
    (s : AnalyserState) (hs : Spent n b s) : Agree F G m n b' s := by
  induction h generalizing s with
  | still still => exact agree_still still hs
  | refuse cause => exact ⟨rfl, nofun⟩
  | accept wanted h => exact agree_accept h hs
  | @acceptSeen _ _ _ sort f g h _ _ ihf ihg =>
    cases seen : sort s.lookahead.type with
    | true =>
      -- The token is not the end of the file, which is not of this sort.
      have proper : s.lookahead.type ≠ .endOfFile := fun he => by simp [he, h] at seen
      exact (agree_bind (agree_accept proper hs) ihf).congr fun call => by
        rw [acceptSeen_apply, seen, if_pos rfl]
    | false => exact (ihg s hs).congr fun call => by rw [acceptSeen_apply, seen]; rfl
  | part c h =>
    obtain ⟨same, descends⟩ := parts c s (hs.room_lt h hr)
    exact ⟨same, descends.answer fun a t ht => hs.of_lt ht⟩
  | bind _ _ ihm ihf => exact agree_bind (ihm s hs) ihf
  | inFreshChain _ ih =>
    obtain ⟨same, ensures⟩ := ih { s with chain := .fresh } (hs.congr rfl)
    refine ⟨?_, ensures_inFreshChain.mpr ensures⟩
    simp only [Analyser.inFreshChain, same]
  | inLoopScope _ ih =>
    obtain ⟨same, ensures⟩ := ih (enterLoop s) (hs.congr rfl)
    refine ⟨?_, ensures_inLoopScope.mpr (ensures.answer fun a t ht => ?_)⟩
    · simp only [Analyser.inLoopScope, same]
    · exact ht.congr t.place_leaveLoop

/-- If parts with less room do the same, then productions do. -/
theorem within_rule_agrees (c : Call) (s : AnalyserState)
    (parts : ∀ c' s', room c' s' < room c s → F c' s' = G c' s' ∧ Descends F c' s') :
    within c.production (rule F c) s = within c.production (rule G c) s ∧
      Ensures (within c.production (rule F c)) (fun _ t => t.remaining < s.remaining)
        (fun stop _ => stop ≠ .tooDeep) s := by
  obtain ⟨same, ensures⟩ := (paced_rule c).agrees parts c.production.rank_pos
    (s.emit (.begin c.production.name)) (Nat.le_refl _)
  constructor
  · simp only [within, same]
  · -- A stop that is not the limit does not become one on its way out.
    refine ensures_within.mpr (ensures.imp (fun _ t ht => ht) fun stop t ht => ?_)
    cases stop with
    | fault f => exact nofun
    | lexical e => exact nofun
    | tooDeep => exact absurd rfl ht

end Agreement

/-- Limits that are large enough are alike, and do not stop the analysis. -/
theorem analyser_eq_of_room_le {K L : Nat} {c : Call} {s : AnalyserState} (hK : room c s ≤ K)
    (hL : room c s ≤ L) :
    analyser K c s = analyser L c s ∧ Descends (analyser K) c s := by
  induction K generalizing L c s with
  | zero => exact absurd (room_pos c s) (Nat.not_lt.mpr hK)
  | succ K ih =>
    cases L with
    | zero => exact absurd (room_pos c s) (Nat.not_lt.mpr hL)
    | succ L =>
      exact within_rule_agrees c s fun c' s' less => ih (Nat.le_of_lt_succ (less.trans_le hK))
        (Nat.le_of_lt_succ (less.trans_le hL))

/-! ## The analysis without a limit -/

/-- The productions call each other freely. -/
def Unlimited (call : Callee) : Prop := ∀ c, call c = within c.production (rule call c)

/-- The analysis of a production without a limit: the tokens that are left cannot reach the one that
is set. -/
def unlimited : Callee := fun c s => analyser (room c s) c s

theorem analyser_eq_unlimited {K : Nat} {c : Call} {s : AnalyserState} (h : room c s ≤ K) :
    analyser K c s = unlimited c s :=
  (analyser_eq_of_room_le h (Nat.le_refl _)).1

theorem unlimited_unlimited : Unlimited unlimited := by
  refine fun c => funext fun s => ?_
  have above : unlimited c s = analyser (room c s + 1) c s :=
    (analyser_eq_unlimited (Nat.le_succ _)).symm
  rw [above]
  exact (within_rule_agrees c s fun c' s' less =>
    ⟨analyser_eq_unlimited less.le, (analyser_eq_of_room_le less.le less.le).2⟩).1

/-- There is one analysis without a limit. -/
theorem unlimited_iff {call : Callee} : Unlimited call ↔ call = unlimited := by
  refine ⟨fun h => funext fun c => funext fun s => ?_, fun h => h ▸ unlimited_unlimited⟩
  induction hn : room c s using Nat.strong_induction_on generalizing c s with
  | h n ih =>
    -- Parts have less room.
    rw [h c, unlimited_unlimited c]
    refine (within_rule_agrees (F := unlimited) (G := call) c s fun c' s' less => ?_).1.symm
    exact ⟨(ih _ (hn ▸ less) c' s' rfl).symm,
      (analyser_eq_of_room_le (Nat.le_refl _) (Nat.le_refl _)).2⟩

end BlockLang
