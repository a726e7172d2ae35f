import BlockLang.Proofs.Lexing.Segmentation
import Mathlib.Data.List.DropRight

/-!
# Tilings of a source

The lexer loses nothing of a source and knows where it stands. Its line and column are those of the
characters that it has passed, whatever it was asked before and whatever it complained about. If all
of a source is lexed, the source is a tiling: each token is written where its position says, behind
a gap, and nothing else is there.

## Main definitions

* `Position.behind front`: the line and column right behind a text, by counting
* `Cursor.Within cursor source`: the cursor stands in the source where it says
* `cursors operators n source`: where the lexer stands before, between and after `n` calls
* `Token.written`, `Token.lexeme`: the characters that a token is written in, and its lexeme
* `SpacedToken`, `layout`: tokens behind their gaps, and what they look like written out
* `Munched`: each of the tokens is as long as its class allows
* `Tiling`: a text is made of tokens behind their gaps, each at its position

## Main results

* `Position.behind_append`: counting agrees with moving on character by character
* `Cursor.Within.next`: a call keeps the cursor in the source and moves it on
* `Segmented.exists_tiling`: a segmentation is a tiling
* `lexer_tiles_source`: the lexer stays in the source, and a source that is lexed is tiled
-/

namespace BlockLang

/-! ## Lines and columns -/

namespace Position

/-- The position right behind a text: one line for each line feed and one more, one column for each
character behind the last line feed and one more. -/
def behind (front : List Char) : Position :=
  ⟨front.count '\n' + 1, (front.rtakeWhile (· ≠ '\n')).length + 1⟩

theorem behind_nil : behind [] = start := by simp [behind, start]

theorem behind_concat (front : List Char) (c : Char) :
    behind (front ++ [c]) = (behind front).advance c := by
  by_cases hc : c = '\n'
  · simp [behind, advance, hc]
  · simp [behind, advance, hc]

/-- Counting agrees with moving on character by character. -/
theorem behind_append (front cs : List Char) :
    behind (front ++ cs) = (behind front).after cs := by
  induction cs generalizing front with
  | nil => simp
  | cons c cs ih => rw [List.append_cons, ih, behind_concat, after_cons]

/-- Characters on one line move a position on in its line. -/
theorem after_of_oneLine {run : List Char} (h : '\n' ∉ run) (p : Position) :
    p.after run = ⟨p.line, p.col + run.length⟩ := by
  induction run generalizing p with
  | nil => simp
  | cons c run ih =>
    obtain ⟨first, rest⟩ := not_or.mp (List.mem_cons.not.mp h)
    rw [after_cons, ih rest, advance, if_neg (Ne.symm first)]
    simp only [List.length_cons, mk.injEq, true_and]
    omega

theorem lt_advance (p : Position) (c : Char) : p < p.advance c := by
  unfold advance
  split
  · exact .inl (Int.lt_succ p.line)
  · exact .inr ⟨rfl, Int.lt_succ p.col⟩

protected theorem lt_trans {p q r : Position} (h : p < q) (h' : q < r) : p < r := by
  rcases h with h | ⟨h, hc⟩ <;> rcases h' with h' | ⟨h', hc'⟩
  · exact .inl (Int.lt_trans h h')
  · exact .inl (h' ▸ h)
  · exact .inl (h ▸ h')
  · exact .inr ⟨h.trans h', Int.lt_trans hc hc'⟩

/-- Characters move a position on. -/
theorem lt_after (p : Position) {cs : List Char} (h : cs ≠ []) : p < p.after cs := by
  induction cs generalizing p with
  | nil => exact absurd rfl h
  | cons c cs ih =>
    rw [after_cons]
    cases cs with
    | nil => exact p.lt_advance c
    | cons d cs => exact Position.lt_trans (p.lt_advance c) (ih _ (by simp))

theorem behind_lt (front : List Char) {cs : List Char} (h : cs ≠ []) :
    behind front < behind (front ++ cs) := by
  rw [behind_append]
  exact lt_after _ h

end Position

/-! ## Where the lexer stands -/

variable {source : String} {cursor : Cursor} {operators : OperatorTrie} {c : Char}
  {cs front gap rest run tail : List Char}

/-- The cursor stands in the source where it says. -/
structure Cursor.Within (cursor : Cursor) (source : String) : Prop where
  offset_le : cursor.offset ≤ source.length
  rest_eq : cursor.rest = source.toList.drop cursor.offset
  position_eq : cursor.position = .behind (source.toList.take cursor.offset)

/-- Where the lexer stands before the first call and after each of `n` calls. -/
def cursors (operators : OperatorTrie) (n : Nat) (source : String) : List Cursor :=
  .start source :: (pulls operators n (.start source)).map Prod.snd

/-- A lexeme that is found is read from the front of the text. -/
theorem written_isPrefix {lexeme : Lexeme} (h : scan operators c cs = .found lexeme) :
    lexeme.written <+: c :: cs := by
  rw [scan] at h
  split at h
  · next quote =>
    rw [scanString] at h
    split at h
    · next rest heq =>
      cases h
      subst quote
      refine ⟨rest, ?_⟩
      have split : stringBody cs ++ cs.drop (stringBody cs).length = cs :=
        List.prefix_iff_eq_append.mp (stringBody_isPrefix cs)
      rw [heq] at split
      simpa using split
    · cases h
  · split at h
    · cases h
      exact numberText_isPrefix _
    · split at h
      · cases h
        exact List.takeWhile_prefix _
      · split at h
        · cases h
          exact List.take_prefix _ _
        · cases h

/-- What is passed before an obstacle shows is read from the front of the text. -/
theorem passed_isPrefix {obstacle : Obstacle} (h : scan operators c cs = .stuck obstacle run) :
    run <+: c :: cs := by
  rw [scan] at h
  split at h
  · next quote =>
    rw [scanString] at h
    split at h
    · cases h
    · cases h
      subst quote
      exact (List.prefix_cons_inj _).mpr (stringBody_isPrefix cs)
  · split at h
    · cases h
    · split at h
      · cases h
      · split at h
        · cases h
        · cases h
          exact List.nil_prefix

namespace Cursor

theorem within_start (source : String) : (start source).Within source :=
  ⟨Nat.zero_le _, rfl, by simp [start, Position.behind_nil]⟩

/-- A cursor that passes what stands in front of it stays in the source. -/
theorem Within.pass (h : cursor.Within source) (hr : run <+: cursor.rest) :
    (cursor.pass run).Within source := by
  obtain ⟨rest, hr⟩ := hr
  have behind : source.toList = source.toList.take cursor.offset ++ (run ++ rest) := by
    rw [hr, h.rest_eq, List.take_append_drop]
  have taken : (source.toList.take cursor.offset).length = cursor.offset := by
    rw [List.length_take, String.length_toList, Nat.min_eq_left h.offset_le]
  have front : source.toList.take (cursor.offset + run.length) =
      source.toList.take cursor.offset ++ run := by
    rw [List.take_add, ← h.rest_eq, ← hr, List.take_left]
  refine ⟨?_, ?_, ?_⟩
  · have := congrArg List.length behind
    rw [String.length_toList, List.length_append, List.length_append, taken] at this
    simp only [Cursor.pass]
    omega
  · simp only [Cursor.pass, h.rest_eq, List.drop_drop]
  · simp only [Cursor.pass, front, Position.behind_append, h.position_eq]

theorem Within.passGap (h : cursor.Within source) : cursor.passGap.Within source :=
  h.pass (List.takeWhile_prefix _)

/-- A call keeps the cursor in the source and moves it on. -/
theorem Within.next (h : cursor.Within source) (operators : OperatorTrie) :
    (cursor.next operators).2.Within source ∧
      cursor.offset ≤ (cursor.next operators).2.offset := by
  have gap_le : cursor.offset ≤ cursor.passGap.offset := Nat.le_add_right _ _
  rw [Cursor.next, deliver]
  split
  · exact ⟨h.passGap, gap_le⟩
  · next c cs heq =>
    split
    · next lexeme found =>
      exact ⟨h.passGap.pass (heq ▸ written_isPrefix found), gap_le.trans (Nat.le_add_right _ _)⟩
    · next obstacle passed stuck =>
      exact ⟨h.passGap.pass (heq ▸ passed_isPrefix stuck), gap_le.trans (Nat.le_add_right _ _)⟩

/-- Any number of calls keep the cursor in the source, and none moves it back. -/
theorem Within.pulls (h : cursor.Within source) (operators : OperatorTrie) (n : Nat) :
    (∀ after ∈ (BlockLang.pulls operators n cursor).map Prod.snd,
        after.Within source ∧ cursor.offset ≤ after.offset) ∧
      ((BlockLang.pulls operators n cursor).map Prod.snd).Pairwise (·.offset ≤ ·.offset) := by
  induction n generalizing cursor with
  | zero => exact ⟨by simp [BlockLang.pulls], by simp [BlockLang.pulls]⟩
  | succ n ih =>
    obtain ⟨within, offset_le⟩ := h.next operators
    obtain ⟨others, ordered⟩ := ih within
    simp only [BlockLang.pulls, List.map_cons, List.pairwise_cons]
    refine ⟨fun after ha => ?_, fun after ha => (others after ha).2, ordered⟩
    rcases List.mem_cons.mp ha with rfl | ha
    · exact ⟨within, offset_le⟩
    · exact ⟨(others after ha).1, offset_le.trans (others after ha).2⟩

end Cursor

/-! ## Lexemes of tokens -/

/-- The characters that a token is written in: its text, with quotes around it if it is a string
constant. -/
def Token.written (t : Token) : List Char :=
  if t.type = .stringLiteral then '"' :: t.value.toList ++ ['"'] else t.value.toList

/-- The lexeme of a token. -/
def Token.lexeme (t : Token) : Lexeme := ⟨t.type, t.value.toList, t.written⟩

variable {lexeme : Lexeme}

/-- A lexeme is that of its token. -/
theorem Lexeme.Before.lexeme_eq (h : lexeme.Before rest) (p : Position) :
    (Token.mk lexeme.type (String.ofList lexeme.value) p).lexeme = lexeme := by
  have keyword : ∀ entry ∈ keywords.entries, entry.2 ≠ .stringLiteral := by decide
  have operator : ∀ entry ∈ operators.entries, entry.2 ≠ .stringLiteral := by decide
  cases h with
  | string | number | identifier => simp [Token.lexeme, Token.written]
  | keyword _ _ _ spelled =>
    have := keyword _ (Dictionary.mem_of_findEntry_eq_some spelled)
    simp [Token.lexeme, Token.written, this]
  | operator _ spelled =>
    have := operator _ (Dictionary.mem_of_findEntry_eq_some spelled)
    simp [Token.lexeme, Token.written, this]

theorem isDigit_lineFeed : Text.isDigit '\n' = false := by decide +kernel

theorem isWordChar_lineFeed : Text.isWordChar '\n' = false := by decide +kernel

/-- A run of characters of a class does not hold a character that is not of the class. -/
theorem LongestRun.notMem {p : Char → Bool} (h : LongestRun p run rest) (hc : p c = false) :
    c ∉ run := by
  intro hr
  rw [h.inside c hr] at hc
  cases hc

/-- A lexeme stands on one line. -/
theorem Lexeme.Before.oneLine (h : lexeme.Before rest) : '\n' ∉ lexeme.written := by
  have operator : ∀ entry ∈ operators.entries, '\n' ∉ entry.1.toList := by decide
  cases h with
  | string h => simpa using h.oneLine
  | number h =>
    cases h with
    | whole _ digits => exact digits.notMem isDigit_lineFeed
    | @fraction run more _ _ inside _ digits =>
      have whole : '\n' ∉ run := fun hr => by
        cases isDigit_lineFeed.symm.trans (inside _ hr)
      simpa [whole] using digits.notMem isDigit_lineFeed
  | keyword _ _ h | identifier _ _ h => exact h.notMem isWordChar_lineFeed
  | operator _ spelled =>
    simpa using operator _ (Dictionary.mem_of_findEntry_eq_some spelled)

/-! ## Tokens behind their gaps -/

/-- A token with the gap in front of it. -/
structure SpacedToken where
  gap : List Char
  token : Token

/-- A token written out behind its gap. -/
def SpacedToken.text (piece : SpacedToken) : List Char := piece.gap ++ piece.token.written

/-- Tokens written out one after another, each behind its gap. -/
def layout (pieces : List SpacedToken) : List Char := pieces.flatMap SpacedToken.text

@[simp] theorem layout_nil : layout [] = [] := rfl

@[simp] theorem layout_cons (piece : SpacedToken) (pieces : List SpacedToken) :
    layout (piece :: pieces) = piece.gap ++ (piece.token.written ++ layout pieces) := by
  simp [layout, SpacedToken.text]

/-- Each of some tokens that are written out in front of `tail` is as long as its class allows. -/
def Munched : List SpacedToken → List Char → Prop
  | [], _ => True
  | piece :: pieces, tail =>
    piece.token.lexeme.Before (layout pieces ++ tail) ∧ Munched pieces tail

/-- The text behind `front` is made of tokens behind their gaps and of a gap at its end. Every token
stands on one line, at its position, and the positions increase up to the end of the file. -/
structure Tiling (front text : List Char) (tokens : List Token) (pieces : List SpacedToken)
    (tail : List Char) : Prop where
  text_eq : layout pieces ++ tail = text
  tokens_eq : tokens =
    pieces.map SpacedToken.token ++ [⟨.endOfFile, "", .behind (front ++ text)⟩]
  gaps : ∀ piece ∈ pieces, ∀ c ∈ piece.gap, isGap c
  gap_tail : ∀ c ∈ tail, isGap c
  munched : Munched pieces tail
  type_ne : ∀ piece ∈ pieces, piece.token.type ≠ .endOfFile
  nonempty : ∀ piece ∈ pieces, piece.token.written ≠ []
  oneLine : ∀ piece ∈ pieces, '\n' ∉ piece.token.written
  position_eq : ∀ before piece after, pieces = before ++ piece :: after →
    piece.token.position = .behind (front ++ (layout before ++ piece.gap))
  increasing : tokens.Pairwise (·.position < ·.position)

variable {t : Token} {tokens : List Token} {pieces : List SpacedToken}

/-- Every token stands at or behind the start of the text. -/
theorem Tiling.exists_behind (h : Tiling front cs tokens pieces tail) (ht : t ∈ tokens) :
    ∃ run, t.position = .behind (front ++ run) := by
  rw [h.tokens_eq, List.mem_append, List.mem_singleton] at ht
  rcases ht with ht | rfl
  · obtain ⟨piece, hp, rfl⟩ := List.mem_map.mp ht
    obtain ⟨before, after, hp⟩ := List.append_of_mem hp
    exact ⟨_, h.position_eq before piece after hp⟩
  · exact ⟨cs, rfl⟩

/-- A text without tokens. -/
theorem Tiling.nil (h : ∀ c ∈ gap, isGap c) :
    Tiling front gap [⟨.endOfFile, "", .behind (front ++ gap)⟩] [] gap where
  text_eq := rfl
  tokens_eq := rfl
  gaps := by simp
  gap_tail := h
  munched := trivial
  type_ne := by simp
  nonempty := by simp
  oneLine := by simp
  position_eq := by simp
  increasing := List.pairwise_singleton _ _

/-- One more token in front of a tiling. -/
theorem Tiling.cons (h : Tiling (front ++ (gap ++ t.written)) rest tokens pieces tail)
    (hg : ∀ c ∈ gap, isGap c) (before : t.lexeme.Before rest)
    (position_eq : t.position = .behind (front ++ gap)) :
    Tiling front (gap ++ (t.written ++ rest)) (t :: tokens) (⟨gap, t⟩ :: pieces) tail := by
  have nonempty : t.written ≠ [] := List.ne_nil_of_length_pos before.length_pos
  refine ⟨by simp [← h.text_eq], by simp [h.tokens_eq], by simpa using ⟨hg, h.gaps⟩, h.gap_tail,
    ⟨by rw [h.text_eq]; exact before, h.munched⟩, by simpa using ⟨before.type_ne_endOfFile,
    h.type_ne⟩, by simpa using ⟨nonempty, h.nonempty⟩, by simpa using ⟨before.oneLine, h.oneLine⟩,
    ?_, ?_⟩
  · intro before piece after hp
    cases before with
    | nil =>
      obtain ⟨rfl, -⟩ := List.cons.inj hp
      simpa using position_eq
    | cons first before =>
      obtain ⟨rfl, others⟩ := List.cons.inj hp
      simpa using h.position_eq before piece after others
  · -- The others stand behind this token, which has a character or more.
    refine List.pairwise_cons.mpr ⟨fun u hu => ?_, h.increasing⟩
    obtain ⟨run, hu⟩ := h.exists_behind hu
    rw [position_eq, hu, ← List.append_assoc front, List.append_assoc]
    exact Position.behind_lt _ (by simp [nonempty])

/-! ## Segmentations are tilings -/

/-- A segmentation is a tiling. -/
theorem Segmented.exists_tiling {p : Position} {r : Except LexicalError (List Token)}
    (h : Segmented p cs r) : ∀ {front tokens}, p = .behind front → r = .ok tokens →
      ∃ pieces tail, Tiling front cs tokens pieces tail := by
  induction h with
  | @endOfFile p gap skipped =>
    rintro front tokens rfl hr
    obtain rfl := Except.ok.inj hr
    rw [← Position.behind_append]
    exact ⟨[], gap, .nil skipped.inside⟩
  | @token p gap rest lexeme r skipped before _ ih =>
    rintro front tokens rfl hr
    cases r with
    | error e => cases hr
    | ok others =>
      obtain rfl := Except.ok.inj hr
      rw [← Position.behind_append]
      have same := before.lexeme_eq (.behind (front ++ gap))
      have written := congrArg Lexeme.written same
      have moved : ((Position.behind front).after gap).after lexeme.written =
          .behind (front ++ (gap ++ lexeme.written)) := by
        rw [← Position.behind_append, ← Position.behind_append, List.append_assoc]
      obtain ⟨pieces, tail, tiling⟩ := ih moved rfl
      rw [← written] at tiling ⊢
      exact ⟨_, tail, tiling.cons skipped.inside (by rw [same]; exact before) rfl⟩
  | error => exact fun _ hr => by cases hr

/-- A source that is lexed is tiled by its tokens. -/
theorem exists_tiling_of_tokenize (h : tokenize source = .ok tokens) :
    ∃ pieces tail, Tiling [] source.toList tokens pieces tail :=
  (segmented_tokenize source).exists_tiling Position.behind_nil.symm h

/-- The lexer stays in the source: after any calls, also after errors, its line and column are those
of the characters that it has passed, and it never moves back. If all of the source is lexed, the
source is tiled by its tokens. -/
theorem lexer_tiles_source (source : String) :
    (∀ (operators : OperatorTrie) (n : Nat),
      (∀ cursor ∈ cursors operators n source, cursor.Within source) ∧
        (cursors operators n source).Pairwise (·.offset ≤ ·.offset)) ∧
      ∀ tokens, tokenize source = .ok tokens →
        ∃ pieces tail, Tiling [] source.toList tokens pieces tail := by
  constructor
  · intro operators n
    obtain ⟨within, ordered⟩ := (Cursor.within_start source).pulls operators n
    refine ⟨fun cursor hc => ?_, List.pairwise_cons.mpr ⟨fun after ha => (within after ha).2,
      ordered⟩⟩
    rcases List.mem_cons.mp hc with rfl | hc
    · exact Cursor.within_start source
    · exact (within cursor hc).1
  · exact fun tokens lexed => exists_tiling_of_tokenize lexed

/-- Two lines with a string constant on the first. -/
def greetingSource : String := "x := \"a b\"\n  ;"

theorem lexer_tiles_greetingSource :
    tokenize greetingSource = .ok [⟨.identifier, "x", ⟨1, 1⟩⟩, ⟨.colonEqual, ":=", ⟨1, 3⟩⟩,
        ⟨.stringLiteral, "a b", ⟨1, 6⟩⟩, ⟨.semicolon, ";", ⟨2, 3⟩⟩, ⟨.endOfFile, "", ⟨2, 4⟩⟩] ∧
      ∃ pieces tail, Tiling [] greetingSource.toList [⟨.identifier, "x", ⟨1, 1⟩⟩,
        ⟨.colonEqual, ":=", ⟨1, 3⟩⟩, ⟨.stringLiteral, "a b", ⟨1, 6⟩⟩, ⟨.semicolon, ";", ⟨2, 3⟩⟩,
        ⟨.endOfFile, "", ⟨2, 4⟩⟩] pieces tail :=
  ⟨by decide +kernel, (lexer_tiles_source greetingSource).2 _ (by decide +kernel)⟩

end BlockLang
