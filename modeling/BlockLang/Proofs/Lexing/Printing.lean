import BlockLang.Proofs.Lexing.Printable

/-!
# Printing tokens

Lexing undoes printing. Printable tokens with gaps between them are read back as they are, and what
the lexer reads can be printed again, with other gaps between the tokens. So the gaps of a source
carry no meaning.

A lexeme ends where the next character does not go on with it. A gap never does; and where two
lexemes touch, only the first character of the second one counts, since no operator is longer than
two characters and no lexeme begins with a point.

## Main definitions

* `Token.face`: the type and text of a token
* `Gapped pieces tail`: only gaps stand between the tokens and behind them
* `Reformats pieces pieces'`: the same tokens, and gaps still stand where some stood

## Main results

* `Lexeme.Before.congr`: in front of a lexeme, only its first character counts
* `Munched.reformats`: other gaps leave tokens as long as they were
* `exists_tokenize_layout`: tokens that are as long as they can be are read back
* `lexing_undoes_printing`: what is printed is read back, and what is read can be printed again
-/

namespace BlockLang

open Text

variable {c : Char} {run rest rest' tail tail' : List Char} {lexeme other : Lexeme} {t : Token}

/-! ## Lexemes that touch -/

/-- A lexeme begins neither with a gap nor with a point. -/
theorem Lexeme.Before.exists_first (h : lexeme.Before rest) :
    ∃ c run, lexeme.written = c :: run ∧ isGap c = false ∧ c ≠ '.' := by
  have quote : isGap '"' = false ∧ '"' ≠ '.' := by decide
  have point : isGap '.' = false := by decide
  have signs : ∀ entry ∈ operators.entries, entry.1.toList.head?.all fun c =>
      !isGap c && c != '.' := by decide +kernel
  -- Neither gaps nor points are digits, and none is a word character.
  have digit {c : Char} (hc : isDigit c) : isGap c = false ∧ c ≠ '.' := by
    refine ⟨Bool.eq_false_iff.mpr fun gap => ?_, ?_⟩
    · cases (isGap_cases gap).2.1.symm.trans hc
    · rintro rfl
      cases isDigit_point.symm.trans hc
  have word {c : Char} (hc : isWordStart c) : isGap c = false ∧ c ≠ '.' := by
    have inside := isWordChar_of_isWordStart hc
    refine ⟨Bool.eq_false_iff.mpr fun gap => ?_, ?_⟩
    · cases (isGap_cases gap).1.symm.trans inside
    · rintro rfl
      have outside : isWordChar '.' = false := by decide +kernel
      cases outside.symm.trans inside
  cases h with
  | string => exact ⟨_, _, rfl, quote⟩
  | number h =>
    cases h with
    | whole nonempty digits =>
      obtain ⟨c, run, rfl⟩ := List.exists_cons_of_ne_nil nonempty
      exact ⟨c, run, rfl, digit (digits.inside c List.mem_cons_self)⟩
    | fraction nonempty inside =>
      obtain ⟨c, run, rfl⟩ := List.exists_cons_of_ne_nil nonempty
      exact ⟨c, _, rfl, digit (inside c List.mem_cons_self)⟩
  | keyword _ start | identifier _ start => exact ⟨_, _, rfl, word start⟩
  | operator _ spelled =>
    have sign := signs _ (Dictionary.mem_of_findEntry_eq_some spelled)
    exact ⟨_, _, rfl, by simpa using sign⟩

theorem LongestRun.congr {p : Char → Bool} (h : LongestRun p run (c :: rest)) :
    LongestRun p run (c :: rest') :=
  ⟨h.inside, h.stops⟩

/-- In front of a lexeme, only its first character counts. -/
theorem Lexeme.Before.congr (h : lexeme.Before (other.written ++ rest)) (ho : other.Before rest) :
    lexeme.Before (other.written ++ rest') := by
  obtain ⟨c, more, written, -, point⟩ := ho.exists_first
  rw [written, List.cons_append] at h ⊢
  cases h with
  | string h => exact .string h
  | number h =>
    cases h with
    | whole nonempty digits =>
      refine .number (.whole nonempty digits.congr fun d more he => ?_)
      exact absurd (List.cons.inj he).1 point
    | fraction nonempty inside follows digits =>
      exact .number (.fraction nonempty inside follows digits.congr)
  | keyword digit start h spelled => exact .keyword digit start h.congr spelled
  | identifier digit start h spelled => exact .identifier digit start h.congr spelled
  | @operator type d run _ sign spelled longest =>
    refine .operator sign spelled fun longer hl hn => ?_
    by_contra found
    obtain ⟨u, hu⟩ := Option.ne_none_iff_exists'.mp found
    -- No operator is longer than two characters, so the longer one ends with `c`.
    have short : ∀ entry ∈ operators.entries, entry.1.toList.length ≤ 2 := by decide
    have two := short _ (Dictionary.mem_of_findEntry_eq_some hu)
    rw [String.toList_ofList] at two
    have length_eq : longer.length = (d :: run ++ [c]).length := by
      simp only [List.length_append, List.length_cons, List.length_nil] at hn ⊢
      omega
    have longer_eq : longer = d :: run ++ [c] := by
      refine (List.prefix_of_prefix_length_le hl ?_ length_eq.le).eq_of_length length_eq
      exact (List.prefix_append_right_inj _).mpr (by simp)
    exact found (longest longer (longer_eq ▸ (List.prefix_append_right_inj _).mpr (by simp)) hn)

/-! ## Tokens with other gaps -/

variable {pieces pieces' : List SpacedToken}

/-- The type and text of a token. -/
def Token.face (t : Token) : TokenType × String := (t.type, t.value)

theorem Token.lexeme_eq_of_face {u : Token} (h : u.face = t.face) : u.lexeme = t.lexeme := by
  obtain ⟨type, value⟩ := Prod.mk.inj h
  simp [Token.lexeme, Token.written, type, value]

/-- Only gaps stand in front of the tokens and behind the last one. -/
structure Gapped (pieces : List SpacedToken) (tail : List Char) : Prop where
  gaps : ∀ piece ∈ pieces, ∀ c ∈ piece.gap, isGap c
  gap_tail : ∀ c ∈ tail, isGap c

theorem Gapped.of_cons {piece : SpacedToken} (h : Gapped (piece :: pieces) tail) :
    Gapped pieces tail :=
  ⟨fun q hq => h.gaps q (List.mem_cons_of_mem _ hq), h.gap_tail⟩

/-- A gap comes next if none is missing. -/
theorem Gapped.stops (h : Gapped pieces tail) (apart : ∀ piece ∈ pieces.head?, piece.gap ≠ []) :
    ∀ c ∈ (layout pieces ++ tail).head?, isGap c := by
  cases pieces with
  | nil => exact fun c hc => h.gap_tail c (List.mem_of_mem_head? hc)
  | cons piece pieces =>
    obtain ⟨d, gap, hg⟩ := List.exists_cons_of_ne_nil (apart piece rfl)
    intro c hc
    obtain rfl : d = c := by simpa [hg] using hc
    exact h.gaps piece List.mem_cons_self d (by simp [hg])

/-- Printable tokens with gaps between them are as long as they can be. -/
theorem Gapped.munched (h : Gapped pieces tail)
    (printable : ∀ piece ∈ pieces, piece.token.Printable)
    (apart : ∀ piece ∈ pieces.tail, piece.gap ≠ []) : Munched pieces tail := by
  induction pieces with
  | nil => trivial
  | cons piece pieces ih =>
    have others := h.of_cons
    refine ⟨(printable piece List.mem_cons_self).before (others.stops fun q hq => ?_),
      ih others (fun q hq => printable q (List.mem_cons_of_mem _ hq)) fun q hq => ?_⟩
    · exact apart q (List.mem_of_mem_head? hq)
    · exact apart q (List.mem_of_mem_tail hq)

theorem Munched.printable (h : Munched pieces tail) : ∀ piece ∈ pieces, piece.token.Printable := by
  induction pieces with
  | nil => simp
  | cons piece pieces ih =>
    obtain ⟨before, others⟩ := h
    simpa using ⟨Token.printable_of_before before, ih others⟩

/-- The same tokens once more, between which gaps still stand where some stood. -/
structure Reformats (pieces pieces' : List SpacedToken) : Prop where
  same : pieces'.map (·.token.face) = pieces.map (·.token.face)
  apart : List.Forall₂ (fun piece piece' => piece'.gap = [] → piece.gap = [])
    pieces.tail pieces'.tail

/-- Other gaps leave tokens as long as they were. -/
theorem Munched.reformats (h : Munched pieces tail) (hr : Reformats pieces pieces')
    (gapped : Gapped pieces' tail') : Munched pieces' tail' := by
  induction pieces generalizing pieces' with
  | nil =>
    obtain rfl : pieces' = [] := by simpa using hr.same
    trivial
  | cons piece pieces ih =>
    obtain ⟨same, apart⟩ := hr
    obtain ⟨piece', pieces', rfl⟩ : ∃ q qs, pieces' = q :: qs :=
      List.exists_cons_of_ne_nil fun h => by simp [h] at same
    obtain ⟨before, others⟩ := h
    have printable := Token.printable_of_before before
    simp only [List.map_cons, List.cons.injEq] at same
    rw [List.tail_cons, List.tail_cons] at apart
    refine ⟨?_, ih others ⟨same.2, ?_⟩ gapped.of_cons⟩
    · rw [Token.lexeme_eq_of_face same.1]
      cases apart with
      | nil => exact printable.before (gapped.of_cons.stops (by simp))
      | @cons next next' more more' kept =>
        by_cases touches : next'.gap = []
        · -- The next token touches this one, as it did before.
          have written : next'.token.written = next.token.written :=
            congrArg Lexeme.written (Token.lexeme_eq_of_face (List.cons.inj same.2).1)
          simp only [layout_cons, kept touches, touches, List.nil_append, List.append_assoc,
            written] at before ⊢
          exact before.congr others.1
        · exact printable.before (gapped.of_cons.stops (by simpa using touches))
    · cases apart with
      | nil => exact .nil
      | cons _ kept => exact kept

/-! ## Reading back -/

/-- Tokens that are as long as they can be are what the lexer gives. -/
theorem Munched.exists_segmented (h : Munched pieces tail) (gapped : Gapped pieces tail)
    (p : Position) : ∃ tokens, Segmented p (layout pieces ++ tail) (.ok tokens) ∧
      tokens.map Token.face = pieces.map (·.token.face) ++ [(.endOfFile, "")] := by
  induction pieces generalizing p with
  | nil => exact ⟨_, .endOfFile ⟨gapped.gap_tail, by simp⟩, rfl⟩
  | cons piece pieces ih =>
    obtain ⟨before, others⟩ := h
    obtain ⟨c, run, written, first, -⟩ := before.exists_first
    have skipped :
        LongestRun isGap piece.gap (piece.token.lexeme.written ++ (layout pieces ++ tail)) :=
      ⟨gapped.gaps piece List.mem_cons_self, by simpa [written] using first⟩
    obtain ⟨tokens, segmented, faces⟩ := ih others gapped.of_cons
      ((p.after piece.gap).after piece.token.lexeme.written)
    refine ⟨⟨piece.token.type, piece.token.value, p.after piece.gap⟩ :: tokens, ?_, ?_⟩
    · have whole := Segmented.token skipped before segmented
      simp only [Token.lexeme, String.ofList_toList] at whole
      rw [layout_cons, List.append_assoc, List.append_assoc]
      exact whole
    · rw [List.map_cons, faces]
      rfl

/-- Tokens that are as long as they can be are read back. -/
theorem exists_tokenize_layout (h : Munched pieces tail) (gapped : Gapped pieces tail) :
    ∃ tokens, tokenize (String.ofList (layout pieces ++ tail)) = .ok tokens ∧
      tokens.map Token.face = pieces.map (·.token.face) ++ [(.endOfFile, "")] := by
  obtain ⟨tokens, segmented, faces⟩ := h.exists_segmented gapped .start
  refine ⟨tokens, segmented.collect_eq _ (.start _) ?_ rfl ?_, faces⟩
  · simp [Cursor.start]
  · simp

/-- Printable tokens with gaps between them are read back with the types and texts that they had.
What the lexer reads is printable, and it reads the same if other gaps stand in the source. -/
theorem lexing_undoes_printing :
    (∀ pieces tail, (∀ piece ∈ pieces, piece.token.Printable) → Gapped pieces tail →
      (∀ piece ∈ pieces.tail, piece.gap ≠ []) →
      ∃ tokens, tokenize (String.ofList (layout pieces ++ tail)) = .ok tokens ∧
        tokens.map Token.face = pieces.map (·.token.face) ++ [(.endOfFile, "")]) ∧
    ∀ source tokens, tokenize source = .ok tokens →
      ∃ pieces tail p, layout pieces ++ tail = source.toList ∧ Gapped pieces tail ∧
        tokens = pieces.map SpacedToken.token ++ [⟨.endOfFile, "", p⟩] ∧
        (∀ piece ∈ pieces, piece.token.Printable) ∧
        ∀ pieces' tail', Reformats pieces pieces' → Gapped pieces' tail' →
          ∃ tokens', tokenize (String.ofList (layout pieces' ++ tail')) = .ok tokens' ∧
            tokens'.map Token.face = tokens.map Token.face := by
  constructor
  · exact fun pieces tail printable gapped apart =>
      exists_tokenize_layout (gapped.munched printable apart) gapped
  · intro source tokens lexed
    obtain ⟨pieces, tail, tiling⟩ := exists_tiling_of_tokenize lexed
    refine ⟨pieces, tail, _, tiling.text_eq, ⟨tiling.gaps, tiling.gap_tail⟩, tiling.tokens_eq,
      tiling.munched.printable, fun pieces' tail' hr gapped => ?_⟩
    obtain ⟨tokens', lexed', faces⟩ :=
      exists_tokenize_layout (tiling.munched.reformats hr gapped) gapped
    refine ⟨tokens', lexed', ?_⟩
    rw [faces, hr.same, tiling.tokens_eq]
    simp [Token.face]

/-- An assignment that is printed over two lines. -/
def greetingPieces : List SpacedToken :=
  [⟨[], ⟨.identifier, "x", ⟨0, 0⟩⟩⟩, ⟨[' '], ⟨.colonEqual, ":=", ⟨0, 0⟩⟩⟩,
    ⟨['\n', '\t'], ⟨.stringLiteral, "a \\\"", ⟨0, 0⟩⟩⟩]

theorem lexing_undoes_printing_greeting :
    (∀ piece ∈ greetingPieces, piece.token.Printable) ∧ Gapped greetingPieces ['\r'] ∧
      (∀ piece ∈ greetingPieces.tail, piece.gap ≠ []) ∧
      (∃ tokens, tokenize (String.ofList (layout greetingPieces ++ ['\r'])) = .ok tokens ∧
        tokens.map Token.face = greetingPieces.map (·.token.face) ++ [(.endOfFile, "")]) ∧
      ∃ tokens, tokenize "x<=1" = .ok tokens ∧ ∃ pieces tail,
        layout pieces ++ tail = "x<=1".toList ∧ ∀ piece ∈ pieces, piece.token.Printable := by
  have gapped : Gapped greetingPieces ['\r'] := ⟨by simp [greetingPieces, isGap], by simp [isGap]⟩
  have apart : ∀ piece ∈ greetingPieces.tail, piece.gap ≠ [] := by decide
  have printable : ∀ piece ∈ greetingPieces, piece.token.Printable := by
    have body : StringBody "a \\\"".toList :=
      .plain (by decide) (by decide) (by decide) (.plain (by decide) (by decide) (by decide)
        (.pair (by decide) .nil))
    simp only [greetingPieces, List.forall_mem_cons, List.not_mem_nil, false_implies, implies_true,
      and_true]
    exact ⟨.identifier rfl (by decide +kernel) rfl, .spelled rfl, .string rfl body⟩
  have lexed : tokenize "x<=1" = .ok [⟨.identifier, "x", ⟨1, 1⟩⟩, ⟨.lessEqual, "<=", ⟨1, 2⟩⟩,
      ⟨.numberLiteral, "1", ⟨1, 4⟩⟩, ⟨.endOfFile, "", ⟨1, 5⟩⟩] := by decide +kernel
  obtain ⟨pieces, tail, -, text, -, -, printed, -⟩ := lexing_undoes_printing.2 _ _ lexed
  exact ⟨printable, gapped, apart, lexing_undoes_printing.1 _ _ printable gapped apart,
    _, lexed, pieces, tail, text, printed⟩

end BlockLang
