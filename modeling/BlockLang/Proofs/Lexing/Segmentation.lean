import BlockLang.Lexer
import BlockLang.Proofs.Lexing.MaximalMunch

/-!
# Segmentation of a source

The tokens of a source are its segmentation by maximal munch: gaps are skipped, and what stands
behind a gap is a lexeme that is as long as possible, until the source is at its end. Where no
lexeme begins, there is an error instead.

## Main definitions

* `Segmented p cs r`: the text `cs`, which begins at the position `p`, has the segmentation `r`

## Main results

* `Cursor.next_of_before`, `Cursor.next_of_at`: what the lexer gives in front of a lexeme, and where
  none begins
* `tokenize_eq_iff_segmented`: the lexer gives the segmentation that there is
-/

namespace BlockLang

/-- The text, which begins at the position, has the segmentation: its tokens with the end of the
file as the last, or the error where no lexeme begins. -/
inductive Segmented : Position → List Char → Except LexicalError (List Token) → Prop
  | endOfFile {p : Position} {gap : List Char} (skipped : LongestRun isGap gap []) :
      Segmented p gap (.ok [⟨.endOfFile, "", p.after gap⟩])
  | token {p : Position} {gap rest : List Char} {lexeme : Lexeme}
      {r : Except LexicalError (List Token)}
      (skipped : LongestRun isGap gap (lexeme.written ++ rest)) (before : lexeme.Before rest)
      (others : Segmented ((p.after gap).after lexeme.written) rest r) :
      Segmented p (gap ++ (lexeme.written ++ rest))
        (r.map (⟨lexeme.type, String.ofList lexeme.value, p.after gap⟩ :: ·))
  | error {p : Position} {gap cs : List Char} {obstacle : Obstacle}
      (skipped : LongestRun isGap gap cs) (stands : obstacle.At cs) :
      Segmented p (gap ++ cs) (.error ⟨obstacle.message, p.after gap⟩)

variable {cursor : Cursor} {gap cs rest : List Char} {lexeme : Lexeme} {obstacle : Obstacle}

/-! ## One call -/

namespace Cursor

/-- A gap is skipped as a whole. -/
theorem passGap_eq (text : cursor.rest = gap ++ cs) (skipped : LongestRun isGap gap cs) :
    cursor.passGap = ⟨cs, cursor.offset + gap.length, cursor.position.after gap⟩ := by
  rw [passGap, text, skipped.takeWhile_eq, pass, text, List.drop_left]

/-- At the end of the source, the lexer gives the end of the file. -/
theorem next_of_end (text : cursor.rest = gap) (skipped : LongestRun isGap gap []) :
    (cursor.next .standard).1 = .ok ⟨.endOfFile, "", cursor.position.after gap⟩ := by
  have front : cursor.rest = gap ++ [] := by rw [text, List.append_nil]
  rw [next, passGap_eq front skipped]
  rfl

/-- In front of a lexeme, the lexer gives its token and passes it. -/
theorem next_of_before (text : cursor.rest = gap ++ (lexeme.written ++ rest))
    (skipped : LongestRun isGap gap (lexeme.written ++ rest)) (before : lexeme.Before rest) :
    cursor.next .standard =
      (.ok ⟨lexeme.type, String.ofList lexeme.value, cursor.position.after gap⟩,
        ⟨rest, cursor.offset + gap.length + lexeme.written.length,
          (cursor.position.after gap).after lexeme.written⟩) := by
  obtain ⟨c, run, written⟩ := before.exists_cons
  have front : c :: (run ++ rest) = lexeme.written ++ rest := by rw [written, List.cons_append]
  rw [next, passGap_eq text skipped, deliver, ← front]
  simp only [before.scan_eq front, pass, front, List.drop_left]

/-- Where no lexeme begins, the lexer gives an error. -/
theorem next_of_at (text : cursor.rest = gap ++ cs) (skipped : LongestRun isGap gap cs)
    (stands : obstacle.At cs) :
    (cursor.next .standard).1 = .error ⟨obstacle.message, cursor.position.after gap⟩ := by
  obtain ⟨c, cs, rfl⟩ : ∃ c rest, cs = c :: rest := by cases stands <;> exact ⟨_, _, rfl⟩
  obtain ⟨passed, stuck⟩ := exists_scan_eq_stuck_iff.mpr stands
  rw [next, passGap_eq text skipped, deliver]
  simp only [stuck]

end Cursor

/-! ## All calls -/

/-- No lexeme is the end of the file. -/
theorem Lexeme.Before.type_ne_endOfFile (h : lexeme.Before rest) : lexeme.type ≠ .endOfFile := by
  have keyword : ∀ entry ∈ keywords.entries, entry.2 ≠ .endOfFile := by decide
  have operator : ∀ entry ∈ operators.entries, entry.2 ≠ .endOfFile := by decide
  cases h with
  | string | number | identifier => simp
  | keyword _ _ _ spelled => exact keyword _ (Dictionary.mem_of_findEntry_eq_some spelled)
  | operator _ spelled => exact operator _ (Dictionary.mem_of_findEntry_eq_some spelled)

theorem Lexeme.Before.length_pos (h : lexeme.Before rest) : 0 < lexeme.written.length := by
  obtain ⟨c, run, written⟩ := h.exists_cons
  rw [written]
  exact Nat.zero_lt_succ _

/-- What the lexer gives is a segmentation. -/
theorem segmented_deliveries (n : Nat) (cursor : Cursor) (enough : cursor.rest.length < n) :
    Segmented cursor.position cursor.rest (collect (deliveries .standard n cursor)) := by
  induction n generalizing cursor with
  | zero => cases enough
  | succ n ih =>
    -- A gap comes first, and behind it the source ends, or a lexeme stands there, or none does.
    obtain ⟨gap, cs, text, skipped⟩ : ∃ gap cs, cursor.rest = gap ++ cs ∧ LongestRun isGap gap cs :=
      ⟨_, _, (takeWhile_append_drop isGap _).symm, longestRun_takeWhile isGap _⟩
    rw [deliveries, text]
    cases cs with
    | nil =>
      have given := cursor.next_of_end (by simpa using text) skipped
      rcases hn : cursor.next .standard with ⟨delivery, after⟩
      obtain rfl : delivery = _ := by simpa only [hn] using given
      rw [List.append_nil]
      exact .endOfFile skipped
    | cons c cs =>
      cases hs : scan .standard c cs with
      | found lexeme =>
        obtain ⟨rest, front, before⟩ := before_of_scan_eq_found hs
        rw [front] at text skipped ⊢
        have shorter : rest.length < n := by
          have := before.length_pos
          rw [text, List.length_append, List.length_append] at enough
          omega
        rw [Cursor.next_of_before text skipped before]
        simp only [before.type_ne_endOfFile, if_false, collect]
        exact .token skipped before (ih ⟨rest, _, _⟩ shorter)
      | stuck obstacle passed =>
        have stands := exists_scan_eq_stuck_iff.mp ⟨passed, hs⟩
        have given := Cursor.next_of_at text skipped stands
        rcases hn : cursor.next .standard with ⟨delivery, after⟩
        obtain rfl : delivery = _ := by simpa only [hn] using given
        exact .error skipped stands

theorem Cursor.length_rest_start_lt (source : String) :
    (start source).rest.length < source.length + 1 := by
  rw [start, String.length_toList]
  exact Nat.lt_succ_self _

/-- The tokens of a source, or its first error, are a segmentation of it. -/
theorem segmented_tokenize (source : String) : Segmented .start source.toList (tokenize source) :=
  segmented_deliveries _ (.start source) (Cursor.length_rest_start_lt source)

/-- A text has no other segmentation than the one that the lexer gives. -/
theorem Segmented.collect_eq {p : Position} {r : Except LexicalError (List Token)}
    (h : Segmented p cs r) : ∀ (n : Nat) (cursor : Cursor), cursor.rest = cs →
      cursor.position = p → cs.length < n → collect (deliveries .standard n cursor) = r := by
  induction h with
  | @endOfFile p gap skipped =>
    rintro (_ | n) cursor text rfl enough
    · cases enough
    have given := cursor.next_of_end text skipped
    rcases hn : cursor.next .standard with ⟨delivery, after⟩
    obtain rfl : delivery = _ := by simpa only [hn] using given
    simp [deliveries, hn, collect, Except.map]
  | @token p gap rest lexeme r skipped before _ ih =>
    rintro (_ | n) cursor text rfl enough
    · cases enough
    have shorter : rest.length < n := by
      have := before.length_pos
      rw [List.length_append, List.length_append] at enough
      omega
    rw [deliveries, Cursor.next_of_before text skipped before]
    simp only [before.type_ne_endOfFile, if_false, collect]
    rw [ih n _ rfl rfl shorter]
  | @error p gap cs obstacle skipped stands =>
    rintro (_ | n) cursor text rfl enough
    · cases enough
    have given := Cursor.next_of_at text skipped stands
    rcases hn : cursor.next .standard with ⟨delivery, after⟩
    obtain rfl : delivery = _ := by simpa only [hn] using given
    simp [deliveries, hn, collect]

/-- The lexer gives the tokens of a source, or its first error, just as maximal munch segments
it. -/
theorem tokenize_eq_iff_segmented (source : String) (r : Except LexicalError (List Token)) :
    tokenize source = r ↔ Segmented .start source.toList r := by
  have enough : source.toList.length < source.length + 1 := by
    rw [String.length_toList]
    exact Nat.lt_succ_self _
  constructor
  · rintro rfl
    exact segmented_deliveries _ (.start source) enough
  · intro h
    exact h.collect_eq _ (.start source) rfl rfl enough

end BlockLang
