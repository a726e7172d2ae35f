import BlockLang.Proofs.Grammar.Words
import BlockLang.Proofs.Reading.Walk

/-!
# Standing before tokens

A run stands before some tokens when they are what comes next and its scopes hold what was declared.
From there the moves of the analyser do what the walk of a derivation of these tokens does: they
take the tokens, and they stop only where the walk ends.

## Main definitions

* `Stands s δ w next`: before the tokens `w`, behind which is `next`, with the declarations `δ`
* `Analyser.Walks m r next s`: the move comes to `next` with the declarations `r`, or stops if there
  are none

## Main results

* `Stands.accept`: a token that comes next is taken
* `Stands.split`: tokens in two parts
-/

namespace BlockLang

/-- The tokens `w` come next, behind them is `next`, and the scopes hold what was declared. -/
structure Stands (s : AnalyserState) (δ : Declarations) (w : List Token) (next : Place) : Prop where
  passes : Passes s.place w next
  scopes_eq : s.scopes = δ.scopes
  known : δ.Known

variable {α β : Type} {s t : AnalyserState} {δ ε : Declarations} {u v w : List Token} {next : Place}
  {token : Token}

namespace Stands

theorem lookahead_eq (h : Stands s δ (token :: w) next) : s.lookahead = token := h.passes.1

theorem place_eq (h : Stands s δ [] next) : s.place = next := h.passes

/-- Only the place and the scopes count. -/
theorem congr (h : Stands s δ w next) (hp : t.place = s.place) (hs : t.scopes = s.scopes) :
    Stands t δ w next :=
  ⟨hp ▸ h.passes, hs.trans h.scopes_eq, h.known⟩

/-- Tokens in two parts. -/
theorem split (h : Stands s δ (u ++ v) next) :
    ∃ between, Stands s δ u between ∧ Passes between v next := by
  obtain ⟨between, hu, hv⟩ := passes_append.mp h.passes
  exact ⟨between, ⟨hu, h.scopes_eq, h.known⟩, hv⟩

/-- The second part comes after the first. -/
theorem after (h : Stands t ε [] next) {last : Place} (hv : Passes next v last) :
    Stands t ε v last :=
  ⟨h.place_eq ▸ hv, h.scopes_eq, h.known⟩

/-- The token that comes next is taken. -/
theorem accept {wanted : TokenType} {E : Stop → AnalyserState → Prop}
    (h : Stands s δ (token :: w) next) (hw : token.type = wanted) :
    Analyser.Ensures (Analyser.accept wanted)
      (fun a t => a = token ∧ Stands t δ w next ∧ t.chain = s.chain) E s := by
  exact Analyser.ensures_accept_of_passes h.passes hw fun _ rest =>
    ⟨rfl, ⟨rest, h.scopes_eq, h.known⟩, rfl⟩

theorem expect {wanted : TokenType} {E : Stop → AnalyserState → Prop}
    (h : Stands s δ (token :: w) next) (hw : token.type = wanted) :
    Analyser.Ensures (Analyser.expect wanted) (fun _ t => Stands t δ w next ∧ t.chain = s.chain)
      E s :=
  Analyser.ensures_expect.mpr ((h.accept hw).answer fun _ _ ht => ht.2)

/-- What a name stands for is the same in the scopes. -/
theorem lookup_eq (h : Stands s δ w next) (name : String) :
    s.scopes.lookup name = δ.lookup name := by
  rw [h.scopes_eq, δ.lookup_scopes]

/-- A loop scope is opened. -/
theorem enterLoop (h : Stands s δ w next) : Stands (Analyser.enterLoop s) δ.enter w next :=
  ⟨h.passes, by rw [δ.scopes_enter, ← h.scopes_eq]; rfl, h.known.enter⟩

/-- A loop scope is closed. -/
theorem leaveLoop (h : Stands s δ w next) : Stands (Analyser.leaveLoop s) δ.leave w next := by
  refine ⟨s.place_leaveLoop ▸ h.passes, ?_, h.known.leave⟩
  obtain ⟨globals, loops⟩ := δ
  have hs := h.scopes_eq
  cases loops with
  | nil => simp [Analyser.leaveLoop, Scopes.leave?, Declarations.leave, Declarations.scopes, hs]
  | cons log outer =>
    simp [Analyser.leaveLoop, Scopes.leave?, Declarations.leave, Declarations.scopes,
      AnalyserState.notify, hs]

/-- A variable is declared. -/
theorem declare (h : Stands s δ w next) {x : Variable} (hx : x.type ≠ .unknown) :
    Stands ({ s with scopes := s.scopes.declare x.identifier x }.emit (.add x)) (δ.declare x) w
      next :=
  ⟨h.passes, by rw [δ.scopes_declare, ← h.scopes_eq]; rfl, h.known.declare hx⟩

end Stands

namespace Analyser

/-- The move comes to `next` with the declarations `r`, or stops if there are none. -/
def Walks (m : Analyser α) (r : Option Declarations) (next : Place) (s : AnalyserState) : Prop :=
  Ensures m (fun _ t => ∃ ε, r = some ε ∧ Stands t ε [] next) (fun _ _ => r = none) s

variable {m : Analyser α} {f : α → Analyser β} {r : Option Declarations}
  {g : Declarations → Option Declarations} {between : Place}

theorem walks_bind (hm : Walks m r between s)
    (hf : ∀ a ε t, r = some ε → Stands t ε [] between → Walks (f a) (g ε) next t) :
    Walks (m >>= f) (r.bind g) next s := by
  refine ensures_bind.mpr (hm.imp (fun a t ht => ?_) fun stop t hr => ?_)
  · obtain ⟨ε, hr, ht⟩ := ht
    rw [hr]
    exact hf a ε t hr ht
  · rw [hr]
    rfl

theorem walks_within {p : Production}
    (h : ∀ t, Stands t δ w next → Walks m r next t) (hs : Stands s δ w next) :
    Walks (within p m) r next s := by
  refine ensures_within.mpr ((h (s.emit (.begin p.name)) (hs.congr rfl rfl)).imp ?_ fun _ _ => id)
  rintro a t ⟨ε, hr, ht⟩
  exact ⟨ε, hr, ht.congr rfl rfl⟩

end Analyser

end BlockLang
