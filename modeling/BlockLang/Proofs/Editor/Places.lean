import BlockLang.Editor.Hover
import BlockLang.Proofs.Editor.Agreement

/-!
# Tokens at places

The tokens of a source that is lexed stand on their lines one behind the other, so that each place
on which a character of a token stands is covered by this token alone. An analysis takes them from
the first one on, and it stops at the one behind.

## Main definitions

* `Token.placeAt t k`: the place of a character of the token
* `Token.StandsAt t p`: a character of the token stands at the place

## Main results

* `Tiling.not_standsAt`: no two tokens stand at one place
* `tokenAt?_placeAt`: the token at the place of a character of a token is this token
* `exists_prefix_of_lexed`: what an analysis took, and where it stopped
-/

namespace BlockLang

variable {source : String} {tokens : List Token} {pieces before after : List SpacedToken}
  {piece u : SpacedToken} {front text tail run : List Char} {t : Token} {k : Nat}
  {p : Editor.EditorPosition}

/-! ## Lines -/

namespace Position

theorem le_of_lt {p q : Position} (h : p < q) : p ≤ q :=
  h.imp id fun ⟨line, col⟩ => ⟨line, Int.le_of_lt col⟩

/-- No position is moved back. -/
theorem le_after (run : List Char) (p : Position) : p ≤ p.after run := by
  by_cases h : run = []
  · exact .inr ⟨by rw [h]; rfl, by rw [h]; exact Int.le_refl _⟩
  · exact le_of_lt (p.lt_after h)

theorem not_le_of_lt {p q : Position} (h : p < q) : ¬q ≤ p := by
  rcases h with line | ⟨line, col⟩ <;> rintro (line' | ⟨line', col'⟩) <;> omega

end Position

/-- A string constant is written in two characters more than its text has. -/
theorem Token.length_written (t : Token) :
    t.written.length = t.value.length + if t.type = .stringLiteral then 2 else 0 := by
  unfold written
  split <;> simp [String.length_toList]

/-! ## Places -/

/-- The place of a character of the token, for an editor. -/
def Token.placeAt (t : Token) (k : Nat) : Editor.EditorPosition :=
  ⟨t.position.line - 1, t.position.col - 1 + k⟩

/-- A character of what the token is written in stands at the place. -/
def Token.StandsAt (t : Token) (p : Editor.EditorPosition) : Prop :=
  ∃ k < t.written.length, p = t.placeAt k

/-- A token stands at the places of the characters of its text. -/
theorem Token.standsAt_of_lt (hk : k < t.value.length) : t.StandsAt (t.placeAt k) := by
  refine ⟨k, ?_, rfl⟩
  rw [t.length_written]
  exact Nat.lt_add_right _ hk

/-- A token covers the places of as many of its characters as its text has. -/
theorem covers_iff : Editor.covers p t ↔
    t.type ≠ .endOfFile ∧ ∃ k < t.value.length, p = t.placeAt k := by
  simp only [Editor.covers, Bool.and_eq_true, decide_eq_true_eq, and_assoc]
  refine and_congr_right fun _ => ⟨?_, ?_⟩
  · rintro ⟨line, col, stop⟩
    refine ⟨(p.character + 1 - t.position.col).toNat, by omega, ?_⟩
    obtain ⟨l, character⟩ := p
    simp only [Token.placeAt, Editor.EditorPosition.mk.injEq] at line col ⊢
    omega
  · rintro ⟨k, hk, rfl⟩
    simp only [Token.placeAt]
    omega

/-- A token stands behind all that is written before it. -/
theorem Tiling.exists_after (h : Tiling front text tokens pieces tail)
    (split : pieces = before ++ piece :: after) (hu : u ∈ before) :
    ∃ run, piece.token.position = (u.token.position.after u.token.written).after run := by
  obtain ⟨first, second, rfl⟩ := List.append_of_mem hu
  refine ⟨layout second ++ piece.gap, ?_⟩
  have here := h.position_eq first u (second ++ piece :: after) (by simp [split])
  have there := h.position_eq _ piece after split
  rw [here, there, ← Position.behind_append, ← Position.behind_append]
  simp [layout, SpacedToken.text]

/-- Where a token stands, none stands that is written before it. -/
theorem Tiling.not_standsAt (h : Tiling front text tokens pieces tail)
    (split : pieces = before ++ piece :: after) (hu : u ∈ before) (hp : piece.token.StandsAt p) :
    ¬u.token.StandsAt p := by
  obtain ⟨run, behind⟩ := h.exists_after split hu
  have oneLine := h.oneLine u (by rw [split]; exact List.mem_append_left _ hu)
  have le := Position.le_after run (u.token.position.after u.token.written)
  rw [← behind, Position.after_of_oneLine oneLine] at le
  obtain ⟨k, -, rfl⟩ := hp
  rintro ⟨j, short, same⟩
  simp only [Token.placeAt, Editor.EditorPosition.mk.injEq] at same
  -- It ends on an earlier line, or on the same line before the other one begins.
  rcases le with earlier | ⟨-, le⟩
  · simp only at earlier
    omega
  · simp only at le
    omega

/-- The token at the place of a character of a token is this token. -/
theorem tokenAt?_placeAt (lexed : tokenize source = .ok tokens) (ht : t ∈ tokens)
    (hk : k < t.value.length) : Editor.tokenAt? tokens (t.placeAt k) = some t := by
  obtain ⟨pieces, tail, tiling⟩ := exists_tiling_of_tokenize lexed
  rw [tiling.tokens_eq, List.mem_append, List.mem_singleton] at ht
  rcases ht with ht | rfl
  · obtain ⟨piece, hp, rfl⟩ := List.mem_map.mp ht
    have covered : Editor.covers (piece.token.placeAt k) piece.token :=
      covers_iff.mpr ⟨tiling.type_ne piece hp, k, hk, rfl⟩
    obtain ⟨before, after, rfl⟩ := List.append_of_mem hp
    have earlier : (before.map SpacedToken.token).find? (Editor.covers (piece.token.placeAt k)) =
        none := by
      refine List.find?_eq_none.mpr fun u hu => ?_
      obtain ⟨u, inside, rfl⟩ := List.mem_map.mp hu
      intro covers
      obtain ⟨-, j, hj, same⟩ := covers_iff.mp covers
      have stands : u.token.StandsAt (piece.token.placeAt k) := same ▸ Token.standsAt_of_lt hj
      exact tiling.not_standsAt rfl inside (Token.standsAt_of_lt hk) stands
    rw [Editor.tokenAt?, tiling.tokens_eq, List.map_append, List.append_assoc, List.find?_append,
      earlier, Option.none_or, List.map_cons, List.cons_append, List.find?_cons_of_pos covered]
  · cases hk

/-! ## Tokens of an analysis -/

/-- An analysis of a source that is lexed is of a run that met no error of the stream. -/
theorem exists_reaches_of_lexed (limit : Nat) (lexed : tokenize source = .ok tokens) :
    ∃ first input t, (TokenStream.ofSource source).pull = (.ok first, input) ∧
      Reaches (.start first input) t ∧
      (analyseWithin limit (.ofSource source)).lookahead = some t.lookahead ∧
      (analyseWithin limit (.ofSource source)).events.toList = t.trace := by
  rcases hp : (TokenStream.ofSource source).pull with ⟨e | first, input⟩
  · have delivered : Except.error e ∈ (TokenStream.ofSource source).front 1 := by
      simp [TokenStream.front, hp]
    obtain ⟨t, ht⟩ := ok_of_mem_front (items_of_lexed lexed) delivered
    cases ht
  · have unbroken : ∀ e, (analyseWithin limit (.ofSource source)).outcome ≠
        .error (.lexical e) := fun e lexical => by cases lexed.symm.trans (tokenize_of_lexical lexical)
    have steady := (composed_program limit).steady (.start first input)
    rw [analyseWithin_of_pull hp] at unbroken ⊢
    cases run : program limit (.start first input) with
    | ok a t => exact ⟨first, input, t, rfl, steady.of_ok run, rfl, rfl⟩
    | error stop t =>
      have halts := steady.of_error run
      cases stop with
      | fault f => exact ⟨first, input, t, rfl, halts, rfl, rfl⟩
      | tooDeep => exact ⟨first, input, t, rfl, halts, rfl, rfl⟩
      | lexical e => exact absurd (by rw [run]; rfl) (unbroken e)

/-- An analysis takes no more than what its source delivers before its end or an error, and it looks
at the delivery behind. -/
theorem front_accepted_isPrefix (limit : Nat) (source : String) :
    (TokenStream.ofSource source).front
        ((accepted (analyseWithin limit (.ofSource source)).events.toList).length + 1) <+:
      deliveriesOf source := by
  obtain ⟨before, last, same, -, delivers⟩ := exists_delivers_of_source source
  have whole : (TokenStream.ofSource source).front (before.length + 1) = deliveriesOf source := by
    have all := TokenStream.front_ofSource source
    rwa [same, List.length_append, List.length_map, ← same] at all
  have few := length_accepted_le (whole.trans same) delivers.endOfFile limit
  exact whole ▸ TokenStream.front_isPrefix (Nat.succ_le_succ few) (.ofSource source)

/-- An analysis of a source that is lexed took tokens from the first one on, and it stopped at the
one behind. -/
theorem exists_prefix_of_lexed (limit : Nat) (lexed : tokenize source = .ok tokens) :
    ∃ next, (analyseWithin limit (.ofSource source)).lookahead = some next ∧
      accepted (analyseWithin limit (.ofSource source)).events.toList ++ [next] <+: tokens := by
  obtain ⟨first, input, t, hp, reached, lookahead, told⟩ := exists_reaches_of_lexed limit lexed
  refine ⟨t.lookahead, lookahead, ?_⟩
  have taken := front_accepted_isPrefix limit source
  rw [deliveriesOf_of_tokenize lexed, told, ← AnalyserState.accepted, reached.front_eq hp] at taken
  rw [told]
  refine (List.prefix_map_iff_of_injective (f := (.ok : Token → Delivery))
    fun _ _ => Except.ok.inj).mp ?_
  rw [List.map_append, List.map_singleton]
  exact taken

end BlockLang
