import BlockLang.Proofs.Editor.Outlines
import BlockLang.Proofs.Editor.Places

/-!
# Characters at places

Each character of a source that does not end a line has a place of its own. If the source is lexed,
the character there is part of one token or of a gap, so the token at a place is found in whatever
order the tokens are gone through. But a token is taken to be as wide as its text. That of a string
constant stands without its quotes, and so the constant is not found at its last two characters.

## Main definitions

* `EditorPosition.behind front`: the place behind a text
* `charAt? source p`: the character of a source at a place
* `FoundByPlace source tokens`: which token is found at which place

## Main results

* `charAt?_eq_some_iff`: the places of the characters of a source
* `gap_or_standsAt`: a character is part of a gap, or a token stands there
* `tokenAt?_eq_some_iff`, `tokenAt?_perm`: the token that is found at a place
* `tokens_are_found_by_place`: which token of a source is found at which place
-/

namespace BlockLang

open Editor

variable {source : String} {tokens : List Token} {pieces before after : List SpacedToken}
  {piece u : SpacedToken} {t v : Token} {p : EditorPosition} {c : Char} {i k : Nat}
  {mark : Char} {cs part front rest text tail run : List Char}

/-! ## Parts of a text -/

/-- What stands behind the last mark does not depend on what stands before a mark. -/
theorem rtakeWhile_cons (h : c = mark ∨ mark ∈ front) :
    (c :: front).rtakeWhile (· ≠ mark) = front.rtakeWhile (· ≠ mark) := by
  induction front using List.reverseRecOn with
  | nil =>
    obtain rfl := h.resolve_right List.not_mem_nil
    simp [List.rtakeWhile]
  | append_singleton front d ih =>
    rw [← List.cons_append]
    by_cases hd : d = mark
    · rw [List.rtakeWhile_concat_neg _ _ _ (by simpa using hd),
        List.rtakeWhile_concat_neg _ _ _ (by simpa using hd)]
    · have before : c = mark ∨ mark ∈ front := by simpa [Ne.symm hd] using h
      rw [List.rtakeWhile_concat_pos _ _ _ (by simpa using hd),
        List.rtakeWhile_concat_pos _ _ _ (by simpa using hd), ih before]

/-- A character of a part is one of the text, behind as many marks as there are parts before. -/
theorem exists_split_of_getElem?_parts (hp : (Text.parts mark cs)[i]? = some part)
    (hc : part[k]? = some c) :
    ∃ front rest, cs = front ++ c :: rest ∧ front.count mark = i ∧
      (front.rtakeWhile (· ≠ mark)).length = k := by
  induction cs generalizing i k part with
  | nil =>
    -- The only part of an empty text has no characters.
    rw [Text.parts, List.getElem?_singleton] at hp
    split at hp
    · cases hp
      simp at hc
    · cases hp
  | cons d cs ih =>
    by_cases hd : d = mark
    · subst hd
      rw [Text.parts_cons_self] at hp
      cases i with
      | zero =>
        cases hp
        simp at hc
      | succ i =>
        obtain ⟨front, rest, rfl, count, column⟩ := ih hp hc
        refine ⟨d :: front, rest, rfl, ?_, ?_⟩
        · rw [List.count_cons_self, count]
        · rw [rtakeWhile_cons (.inl rfl), column]
    · obtain ⟨first, others, split⟩ := Text.exists_parts_eq_cons mark cs
      rw [Text.parts_cons_of_ne hd split] at hp
      rw [split] at ih
      cases i with
      | zero =>
        obtain rfl : d :: first = part := Option.some.inj hp
        cases k with
        | zero => exact ⟨[], cs, by rw [← Option.some.inj hc]; rfl, rfl, rfl⟩
        | succ k =>
          obtain ⟨front, rest, rfl, count, column⟩ := ih (i := 0) rfl hc
          have plain : ∀ e ∈ d :: front, decide (e ≠ mark) := by
            have inside := List.count_eq_zero.mp count
            simpa [hd] using fun e he => ne_of_mem_of_not_mem he inside
          refine ⟨d :: front, rest, rfl, ?_, ?_⟩
          · rw [List.count_cons_of_ne hd, count]
          · have others := fun e he => plain e (List.mem_cons_of_mem d he)
            rw [List.rtakeWhile_eq_self_iff.mpr others] at column
            rw [List.rtakeWhile_eq_self_iff.mpr plain, List.length_cons, column]
      | succ i =>
        obtain ⟨front, rest, rfl, count, column⟩ := ih (i := i + 1) hp hc
        have inside : mark ∈ front := by
          rw [← List.count_pos_iff, count]
          exact Nat.succ_pos i
        refine ⟨d :: front, rest, rfl, ?_, ?_⟩
        · rw [List.count_cons_of_ne hd, count]
        · rw [rtakeWhile_cons (.inr inside), column]

/-! ## Characters of a source -/

namespace Editor

/-- The place right behind a text. -/
def EditorPosition.behind (front : List Char) : EditorPosition :=
  ⟨front.count '\n', (front.rtakeWhile (· ≠ '\n')).length⟩

/-- The character of a source at a place, if the place is on a line and before its end. -/
def charAt? (source : String) (p : EditorPosition) : Option Char :=
  (lineAt? source (p.line + 1)).bind fun line =>
    if 0 ≤ p.character then line.toList[p.character.toNat]? else none

/-- A character that does not end a line is found at its place. -/
theorem charAt?_behind (text : source.toList = front ++ c :: rest) (hc : c ≠ '\n') :
    charAt? source (.behind front) = some c := by
  have shown := lineAt?_behind text
  have number : (Position.behind front).line = front.count '\n' + 1 := rfl
  rw [number] at shown
  rw [charAt?, EditorPosition.behind, shown, Option.bind_some, if_pos (Int.natCast_nonneg _),
    Int.toNat_natCast, String.toList_ofList, lineAround,
    List.getElem?_append_right (Nat.le_refl _), Nat.sub_self]
  simp [hc]

/-- The places of the characters of a source. -/
theorem charAt?_eq_some_iff : charAt? source p = some c ↔
    ∃ front rest, source.toList = front ++ c :: rest ∧ c ≠ '\n' ∧ p = .behind front := by
  constructor
  · intro h
    obtain ⟨line, hl, inside⟩ := Option.bind_eq_some_iff.mp h
    rw [Option.ite_none_right_eq_some] at inside
    obtain ⟨column, inside⟩ := inside
    rw [lineAt?, Option.ite_none_left_eq_some, linesOf, List.getElem?_map,
      Option.map_eq_some_iff] at hl
    obtain ⟨number, part, hp, rfl⟩ := hl
    rw [String.toList_ofList] at inside
    obtain ⟨front, rest, text, count, length⟩ := exists_split_of_getElem?_parts hp inside
    refine ⟨front, rest, text, ?_, ?_⟩
    · rintro rfl
      exact Text.notMem_of_mem_parts (List.mem_of_getElem? hp) (List.mem_of_getElem? inside)
    · obtain ⟨line, character⟩ := p
      simp only [EditorPosition.behind, count, length, EditorPosition.mk.injEq]
      simp only at number column
      omega
  · rintro ⟨front, rest, text, hc, rfl⟩
    exact charAt?_behind text hc

end Editor

/-! ## Characters of tokens -/

theorem Token.placeAt_inj {j : Nat} (h : t.placeAt j = t.placeAt k) : j = k := by
  have := congrArg EditorPosition.character h
  simp only [Token.placeAt] at this
  omega

/-- The place of a character of a token that stands behind a text. -/
theorem Token.placeAt_eq (placed : t.position = .behind front) (oneLine : '\n' ∉ t.written)
    (hk : k ≤ t.written.length) : t.placeAt k = .behind (front ++ t.written.take k) := by
  have plain : '\n' ∉ t.written.take k := fun h => oneLine (List.mem_of_mem_take h)
  have moved : Position.behind (front ++ t.written.take k) =
      ⟨t.position.line, t.position.col + k⟩ := by
    rw [Position.behind_append, Position.after_of_oneLine plain, placed,
      List.length_take_of_le hk]
  have line := congrArg Position.line moved
  have col := congrArg Position.col moved
  simp only [Position.behind] at line col
  rw [Token.placeAt, EditorPosition.behind, EditorPosition.mk.injEq]
  omega

/-- A token of a source that is lexed is delivered at a place of it. -/
theorem exists_deliveredAt_of_mem (lexed : tokenize source = .ok tokens) (ht : t ∈ tokens) :
    ∃ front cs, source.toList = front ++ cs ∧ DeliveredAt front cs (.ok t) := by
  apply exists_deliveredAt_of_mem_deliveriesOf
  rw [deliveriesOf_of_tokenize lexed]
  exact List.mem_map_of_mem ht

/-- What a token of a source is written in stands at its position, on one line. -/
theorem exists_written_of_mem (lexed : tokenize source = .ok tokens) (ht : t ∈ tokens) :
    ∃ front rest, source.toList = front ++ (t.written ++ rest) ∧ t.position = .behind front ∧
      '\n' ∉ t.written := by
  obtain ⟨front, cs, text, delivered⟩ := exists_deliveredAt_of_mem lexed ht
  cases delivered with
  | token before position_eq => exact ⟨front, _, text, position_eq, before.oneLine⟩
  | endOfFile => exact ⟨front, [], text, rfl, by simp [Token.written]⟩

/-- At the places of the characters of a token, the source has these characters. -/
theorem charAt?_placeAt (lexed : tokenize source = .ok tokens) (ht : t ∈ tokens)
    (hk : t.written[k]? = some c) : charAt? source (t.placeAt k) = some c := by
  obtain ⟨front, rest, text, placed, oneLine⟩ := exists_written_of_mem lexed ht
  obtain ⟨inside, here⟩ := List.getElem?_eq_some_iff.mp hk
  have split : t.written.take k ++ c :: t.written.drop (k + 1) = t.written := by
    rw [← here, List.getElem_cons_drop, List.take_append_drop]
  have whole : source.toList =
      front ++ t.written.take k ++ c :: (t.written.drop (k + 1) ++ rest) := by
    rw [text, List.append_assoc, ← List.cons_append, ← List.append_assoc (t.written.take k), split]
  rw [Token.placeAt_eq placed oneLine (Nat.le_of_lt inside)]
  exact charAt?_behind whole (ne_of_mem_of_not_mem (List.mem_of_getElem? hk) oneLine)

/-! ## Characters of a tiling -/

/-- A character of tokens that are written out behind gaps is part of a gap, or it is one of a
token. -/
theorem getElem?_layout {n : Nat} (h : (layout pieces ++ tail)[n]? = some c) :
    (∃ piece ∈ pieces, c ∈ piece.gap) ∨ c ∈ tail ∨
      ∃ before piece after k, pieces = before ++ piece :: after ∧
        k < piece.token.written.length ∧ n = (layout before ++ piece.gap).length + k := by
  induction pieces generalizing n with
  | nil => exact .inr (.inl (List.mem_of_getElem? h))
  | cons first pieces ih =>
    rw [layout_cons, List.append_assoc, List.append_assoc] at h
    rcases Nat.lt_or_ge n first.gap.length with inGap | behindGap
    · rw [List.getElem?_append_left inGap] at h
      exact .inl ⟨first, List.mem_cons_self, List.mem_of_getElem? h⟩
    rw [List.getElem?_append_right behindGap] at h
    rcases Nat.lt_or_ge (n - first.gap.length) first.token.written.length with inside | behind
    · refine .inr (.inr ⟨[], first, pieces, _, rfl, inside, ?_⟩)
      rw [layout_nil, List.nil_append]
      omega
    rw [List.getElem?_append_right behind] at h
    rcases ih h with ⟨piece, hp, hc⟩ | hc | ⟨before, piece, after, k, rfl, hk, place⟩
    · exact .inl ⟨piece, List.mem_cons_of_mem first hp, hc⟩
    · exact .inr (.inl hc)
    · refine .inr (.inr ⟨first :: before, piece, after, k, rfl, hk, ?_⟩)
      simp only [layout_cons, List.length_append] at place ⊢
      omega

/-- A character of a source that is lexed only separates tokens, or a token stands at its place. -/
theorem gap_or_standsAt (lexed : tokenize source = .ok tokens)
    (h : charAt? source p = some c) : isGap c ∨ ∃ t ∈ tokens, t.StandsAt p := by
  obtain ⟨pieces, tail, tiling⟩ := exists_tiling_of_tokenize lexed
  obtain ⟨front, rest, text, -, rfl⟩ := charAt?_eq_some_iff.mp h
  have here : (layout pieces ++ tail)[front.length]? = some c := by
    rw [tiling.text_eq, text]
    simp
  rcases getElem?_layout here with ⟨piece, hp, hc⟩ | hc | ⟨before, piece, after, k, hp, hk, place⟩
  · exact .inl (tiling.gaps piece hp c hc)
  · exact .inl (tiling.gap_tail c hc)
  · have member : piece ∈ pieces := hp ▸ by simp
    refine .inr ⟨piece.token, ?_, k, hk, ?_⟩
    · rw [tiling.tokens_eq]
      exact List.mem_append_left _ (List.mem_map_of_mem member)
    · -- The place is as far behind the front of the source as the character.
      have split : front ++ c :: rest =
          (layout before ++ piece.gap) ++ (piece.token.written ++ (layout after ++ tail)) := by
        rw [← text, ← tiling.text_eq, hp]
        simp [layout, SpacedToken.text]
      have taken := congrArg (List.take front.length) split
      rw [List.take_left, place, List.take_length_add_append,
        List.take_append_of_le_length (Nat.le_of_lt hk)] at taken
      rw [taken, Token.placeAt_eq (tiling.position_eq before piece after hp)
        (tiling.oneLine piece member) (Nat.le_of_lt hk), List.nil_append]

/-- At most one token of a source stands at a place. -/
theorem eq_of_standsAt (lexed : tokenize source = .ok tokens) (ht : t ∈ tokens) (hv : v ∈ tokens)
    (h : t.StandsAt p) (h' : v.StandsAt p) : t = v := by
  obtain ⟨pieces, tail, tiling⟩ := exists_tiling_of_tokenize lexed
  have written {w : Token} (hw : w ∈ tokens) (stands : w.StandsAt p) :
      ∃ piece ∈ pieces, piece.token = w := by
    rw [tiling.tokens_eq, List.mem_append, List.mem_singleton] at hw
    rcases hw with hw | rfl
    · exact List.mem_map.mp hw
    · -- The end of the file has no characters.
      obtain ⟨k, hk, -⟩ := stands
      cases hk
  obtain ⟨piece, hp, rfl⟩ := written ht h
  obtain ⟨other, ho, rfl⟩ := written hv h'
  obtain ⟨before, after, split⟩ := List.append_of_mem hp
  rw [split, List.mem_append, List.mem_cons] at ho
  rcases ho with earlier | rfl | later
  · exact absurd h' (tiling.not_standsAt split earlier h)
  · rfl
  · obtain ⟨between, rest, rfl⟩ := List.append_of_mem later
    have split' : pieces = (before ++ piece :: between) ++ other :: rest := by simp [split]
    exact absurd h (tiling.not_standsAt split' (by simp) h')

/-! ## Tokens at places -/

/-- The token that is found at a place. -/
theorem tokenAt?_eq_some_iff (lexed : tokenize source = .ok tokens) :
    tokenAt? tokens p = some t ↔ t ∈ tokens ∧ ∃ k < t.value.length, p = t.placeAt k := by
  constructor
  · intro h
    exact ⟨List.mem_of_find?_eq_some h, (covers_iff.mp (List.find?_some h)).2⟩
  · rintro ⟨ht, k, hk, rfl⟩
    exact tokenAt?_placeAt lexed ht hk

/-- The order in which tokens are gone through does not matter. -/
theorem tokenAt?_perm {others : List Token} (lexed : tokenize source = .ok tokens)
    (same : others.Perm tokens) (p : EditorPosition) : tokenAt? others p = tokenAt? tokens p := by
  cases found : tokenAt? tokens p with
  | none =>
    refine List.find?_eq_none.mpr fun t ht => ?_
    exact List.find?_eq_none.mp found t (same.mem_iff.mp ht)
  | some t =>
    obtain ⟨ht, k, hk, rfl⟩ := (tokenAt?_eq_some_iff lexed).mp found
    have covered : covers (t.placeAt k) t := List.find?_some found
    obtain ⟨v, hv⟩ : ∃ v, tokenAt? others (t.placeAt k) = some v :=
      Option.isSome_iff_exists.mp (List.find?_isSome.mpr ⟨t, same.mem_iff.mpr ht, covered⟩)
    obtain ⟨-, j, hj, place⟩ := covers_iff.mp (List.find?_some hv)
    have member : v ∈ tokens := same.mem_iff.mp (List.mem_of_find?_eq_some hv)
    rw [hv, eq_of_standsAt lexed member ht (place ▸ Token.standsAt_of_lt hj)
      (Token.standsAt_of_lt hk)]

namespace Editor

/-- Which token of a source is found at which place. Each token is written at its places, and no two
stand at one place. The one that stands at a place is found there, in whatever order the tokens are
gone through, unless the place is that of one of the last two characters of a string constant. Apart
from these places none is found where the source has no character, or one that only separates
tokens. -/
structure FoundByPlace (source : String) (tokens : List Token) : Prop where
  written : ∀ t ∈ tokens, ∀ k c, t.written[k]? = some c → charAt? source (t.placeAt k) = some c
  unique : ∀ p, ∀ t ∈ tokens, ∀ v ∈ tokens, t.StandsAt p → v.StandsAt p → t = v
  found_iff : ∀ p t, tokenAt? tokens p = some t ↔
    t ∈ tokens ∧ ∃ k, k + (if t.type = .stringLiteral then 2 else 0) < t.written.length ∧
      p = t.placeAt k
  none_iff : ∀ p, tokenAt? tokens p = none ↔
    charAt? source p = none ∨
    (∃ c, charAt? source p = some c ∧ isGap c ∧ ∀ t ∈ tokens, ¬t.StandsAt p) ∨
    ∃ t ∈ tokens, t.type = .stringLiteral ∧
      ∃ k < t.written.length, t.written.length ≤ k + 2 ∧ p = t.placeAt k
  perm : ∀ p others, others.Perm tokens → tokenAt? others p = tokenAt? tokens p

/-- Where no token is found. -/
theorem tokenAt?_eq_none_iff (lexed : tokenize source = .ok tokens) : tokenAt? tokens p = none ↔
    charAt? source p = none ∨
    (∃ c, charAt? source p = some c ∧ isGap c ∧ ∀ t ∈ tokens, ¬t.StandsAt p) ∨
    ∃ t ∈ tokens, t.type = .stringLiteral ∧
      ∃ k < t.written.length, t.written.length ≤ k + 2 ∧ p = t.placeAt k := by
  constructor
  · intro missing
    by_cases stands : ∃ t ∈ tokens, t.StandsAt p
    · -- A token that stands at the place is not wide enough.
      obtain ⟨t, ht, k, hk, rfl⟩ := stands
      have beyond : ¬k < t.value.length := fun inside => by
        cases missing.symm.trans (tokenAt?_placeAt lexed ht inside)
      have length := t.length_written
      split at length
      · next string => exact .inr (.inr ⟨t, ht, string, k, hk, by omega, rfl⟩)
      · omega
    · cases here : charAt? source p with
      | none => exact .inl rfl
      | some c =>
        have gap := (gap_or_standsAt lexed here).resolve_right stands
        exact .inr (.inl ⟨c, rfl, gap, fun t ht h => stands ⟨t, ht, h⟩⟩)
  · intro missing
    refine Option.eq_none_iff_forall_ne_some.mpr fun v found => ?_
    obtain ⟨hv, j, hj, rfl⟩ := (tokenAt?_eq_some_iff lexed).mp found
    have stands : v.StandsAt (v.placeAt j) := Token.standsAt_of_lt hj
    rcases missing with empty | ⟨c, -, -, free⟩ | ⟨t, ht, string, k, hk, last, place⟩
    · obtain ⟨i, hi, place⟩ := stands
      rw [place, charAt?_placeAt lexed hv (List.getElem?_eq_getElem hi)] at empty
      cases empty
    · exact free v hv stands
    · obtain rfl := eq_of_standsAt lexed ht hv ⟨k, hk, place⟩ stands
      have same := Token.placeAt_inj place
      have length := t.length_written
      rw [if_pos string] at length
      omega

/-- The tokens of a source are found by their places: all but string constants at each of their
characters, and string constants at each but the last two. -/
theorem tokens_are_found_by_place (lexed : tokenize source = .ok tokens) :
    FoundByPlace source tokens where
  written _ ht _ _ := charAt?_placeAt lexed ht
  unique _ _ ht _ hv := eq_of_standsAt lexed ht hv
  found_iff p t := by
    rw [tokenAt?_eq_some_iff lexed]
    simp only [t.length_written, Nat.add_lt_add_iff_right]
  none_iff _ := tokenAt?_eq_none_iff lexed
  perm p _ same := tokenAt?_perm lexed same p

theorem tokens_are_found_by_place_greetingSource :
    tokenize greetingSource = .ok [⟨.identifier, "x", ⟨1, 1⟩⟩, ⟨.colonEqual, ":=", ⟨1, 3⟩⟩,
        ⟨.stringLiteral, "a b", ⟨1, 6⟩⟩, ⟨.semicolon, ";", ⟨2, 3⟩⟩, ⟨.endOfFile, "", ⟨2, 4⟩⟩] ∧
      FoundByPlace greetingSource [⟨.identifier, "x", ⟨1, 1⟩⟩, ⟨.colonEqual, ":=", ⟨1, 3⟩⟩,
        ⟨.stringLiteral, "a b", ⟨1, 6⟩⟩, ⟨.semicolon, ";", ⟨2, 3⟩⟩,
        ⟨.endOfFile, "", ⟨2, 4⟩⟩] :=
  ⟨by decide +kernel, tokens_are_found_by_place (by decide +kernel)⟩

/-- A string constant of one character is written at three places, and it is found at the first of
them alone. -/
theorem constant_missed_at_closing_quote :
    tokenize "s := \"a\"" = .ok [⟨.identifier, "s", ⟨1, 1⟩⟩, ⟨.colonEqual, ":=", ⟨1, 3⟩⟩,
        ⟨.stringLiteral, "a", ⟨1, 6⟩⟩, ⟨.endOfFile, "", ⟨1, 9⟩⟩] ∧
      (⟨.stringLiteral, "a", ⟨1, 6⟩⟩ : Token).StandsAt ⟨0, 7⟩ ∧
      charAt? "s := \"a\"" ⟨0, 7⟩ = some '"' ∧
      tokenAt? [⟨.identifier, "s", ⟨1, 1⟩⟩, ⟨.colonEqual, ":=", ⟨1, 3⟩⟩,
        ⟨.stringLiteral, "a", ⟨1, 6⟩⟩, ⟨.endOfFile, "", ⟨1, 9⟩⟩] ⟨0, 7⟩ = none :=
  ⟨by decide +kernel, ⟨2, by decide, rfl⟩, by decide +kernel, by decide +kernel⟩

end Editor

end BlockLang
