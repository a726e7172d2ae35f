import BlockLang.Proofs.Lexing.Deliveries

/-!
# Progress of the lexer

Every call of the lexer moves it on or is the last one that matters. A token moves it on, and so
does a string constant without an end, which it passes as far as its line goes. At the end of the
source and at a character that begins no lexeme it stays for good: every further call gives the same
and leaves it where it is. So a source is lexed in no more calls than it has characters, and one.

## Main definitions

* `Advances cursor result`: what a call at a cursor comes to

## Main results

* `stringBody_stops`: a string constant is passed up to a quote, the end of its line or of the text
* `Cursor.next_passGap`: a call that only passes a gap is repeated by every further call
* `Cursor.advances_next`: every call moves the lexer on or leaves it for good
* `lexer_progresses`: so it is at every state, and lexing comes to an end
-/

namespace BlockLang

variable {cursor after : Cursor} {operators : OperatorTrie} {d : Delivery} {t : Token} {c : Char}
  {cs gap : List Char} {n : Nat}

/-! ## String constants without an end -/

theorem lineFeed_notMem_stringBody (cs : List Char) : '\n' ∉ stringBody cs := by
  fun_induction stringBody cs with
  | case1 => exact List.not_mem_nil
  | case2 => decide
  | case3 c cs line ih => simp [ih, Ne.symm line]
  | case4 => exact List.not_mem_nil
  | case5 c cs _ plain ih =>
    rw [not_or] at plain
    simp [ih, Ne.symm plain.2]

/-- A string constant is passed up to a quote, the end of its line or the end of the text. -/
theorem stringBody_stops (cs : List Char) :
    ∀ c ∈ (cs.drop (stringBody cs).length).head?, c = '"' ∨ c = '\n' := by
  fun_induction stringBody cs with
  | case1 => simp
  | case2 => simp
  | case3 c cs line ih => simpa using ih
  | case4 c cs _ stops => simpa using stops
  | case5 c cs _ plain ih => simpa using ih

/-- An obstacle is a string constant, which was passed as far as its line goes, or a character that
was not passed. -/
theorem scan_stuck_cases {obstacle : Obstacle} {passed : List Char}
    (h : scan operators c cs = .stuck obstacle passed) :
    (obstacle = .unterminatedString ∧ c = '"' ∧ ∃ line rest, passed = '"' :: line ∧
      cs = line ++ rest ∧ '\n' ∉ line ∧ (rest = [] ∨ rest.head? = some '\n')) ∨
    obstacle = .unexpected c ∧ passed = [] := by
  rw [scan] at h
  split at h
  · next quote =>
    rw [scanString] at h
    split at h
    · cases h
    · next unclosed =>
      cases h
      refine .inl ⟨rfl, quote, stringBody cs, cs.drop (stringBody cs).length, rfl, ?_,
        lineFeed_notMem_stringBody cs, ?_⟩
      · exact List.prefix_iff_eq_append.mp (stringBody_isPrefix cs) |>.symm
      · have stops := stringBody_stops cs
        cases hr : cs.drop (stringBody cs).length with
        | nil => exact .inl rfl
        | cons d rest =>
          rw [hr] at stops
          rcases stops d rfl with rfl | rfl
          · exact absurd hr (unclosed rest)
          · exact .inr rfl
  · split at h
    · cases h
    · split at h
      · cases h
      · split at h
        · cases h
        · cases h
          exact .inr ⟨rfl, rfl⟩

/-! ## One call -/

namespace Cursor

theorem passGap_passGap (cursor : Cursor) : cursor.passGap.passGap = cursor.passGap := by
  have skipped := longestRun_takeWhile isGap cursor.rest
  have here : LongestRun isGap [] cursor.passGap.rest := ⟨List.forall_mem_nil _, skipped.stops⟩
  have none : cursor.passGap.rest.takeWhile isGap = [] := here.takeWhile_eq
  rw [passGap, none, pass_nil]

/-- A call that only passes a gap is repeated by every further call. -/
theorem next_passGap (h : cursor.next operators = (d, cursor.passGap)) :
    cursor.passGap.next operators = (d, cursor.passGap) := by
  rw [next, passGap_passGap]
  exact h

end Cursor

/-- Where a call leaves the lexer in its place, every call gives the same. -/
theorem pulls_eq_replicate (h : cursor.next operators = (d, cursor)) (n : Nat) :
    pulls operators n cursor = List.replicate n (d, cursor) := by
  induction n with
  | zero => rfl
  | succ n ih =>
    rw [pulls, h, List.replicate_succ]
    exact congrArg _ ih

/-- What a call at a cursor comes to: a token, which moves the lexer on; the end of the file, for
good; a string constant without an end, which moves the lexer on to the end of its line; or an
unexpected character, for good. -/
inductive Advances (cursor : Cursor) : Delivery × Cursor → Prop
  | token {t : Token} {after : Cursor} (proper : t.type ≠ .endOfFile)
      (moved : cursor.offset < after.offset) : Advances cursor (.ok t, after)
  | endOfFile {after : Cursor}
      (forGood : ∀ n, pulls .standard n after =
        List.replicate n (.ok ⟨.endOfFile, "", after.position⟩, after)) :
      Advances cursor (.ok ⟨.endOfFile, "", after.position⟩, after)
  | unterminatedString {gap line : List Char} {after : Cursor}
      (text : cursor.rest = gap ++ '"' :: (line ++ after.rest)) (skipped : ∀ c ∈ gap, isGap c)
      (oneLine : '\n' ∉ line) (stopped : after.rest = [] ∨ after.rest.head? = some '\n')
      (moved : cursor.offset < after.offset) :
      Advances cursor
        (.error ⟨Obstacle.unterminatedString.message, cursor.position.after gap⟩, after)
  | unexpected {c : Char} {after : Cursor} (stands : after.rest.head? = some c)
      (forGood : ∀ n, pulls .standard n after =
        List.replicate n (.error ⟨(Obstacle.unexpected c).message, after.position⟩, after)) :
      Advances cursor (.error ⟨(Obstacle.unexpected c).message, after.position⟩, after)

/-- Every call moves the lexer on or leaves it for good. -/
theorem Cursor.advances_next (cursor : Cursor) : Advances cursor (cursor.next .standard) := by
  have text : cursor.rest = cursor.rest.takeWhile isGap ++ cursor.passGap.rest :=
    (takeWhile_append_drop isGap _).symm
  have gap_le : cursor.offset ≤ cursor.passGap.offset := Nat.le_add_right _ _
  cases rest : cursor.passGap.rest with
  | nil =>
    have given : cursor.next .standard =
        (.ok ⟨.endOfFile, "", cursor.passGap.position⟩, cursor.passGap) := by
      rw [next, deliver, rest]
    rw [given]
    exact .endOfFile (pulls_eq_replicate (next_passGap given))
  | cons c cs =>
    cases hs : scan .standard c cs with
    | found lexeme =>
      obtain ⟨_, -, before⟩ := before_of_scan_eq_found hs
      have given : cursor.next .standard =
          (.ok ⟨lexeme.type, String.ofList lexeme.value, cursor.passGap.position⟩,
            cursor.passGap.pass lexeme.written) := by
        rw [next, deliver, rest]
        simp only [hs]
      rw [given]
      exact .token before.type_ne_endOfFile
        (Nat.lt_of_le_of_lt gap_le (Nat.lt_add_of_pos_right before.length_pos))
    | stuck obstacle passed =>
      have given : cursor.next .standard =
          (.error ⟨obstacle.message, cursor.passGap.position⟩, cursor.passGap.pass passed) := by
        rw [next, deliver, rest]
        simp only [hs]
      rcases scan_stuck_cases hs with ⟨rfl, rfl, line, left, rfl, rfl, oneLine, stopped⟩ |
        ⟨rfl, rfl⟩
      · have behind : (cursor.passGap.pass ('"' :: line)).rest = left := by
          simp [pass, rest]
        rw [given]
        refine .unterminatedString ?_ (longestRun_takeWhile isGap cursor.rest).inside oneLine
          (behind.symm ▸ stopped) ?_
        · rw [behind, ← rest]
          exact text
        · exact Nat.lt_of_le_of_lt gap_le (Nat.lt_add_of_pos_right (Nat.zero_lt_succ _))
      · rw [pass_nil] at given
        rw [given]
        exact .unexpected (by rw [rest]; rfl) (pulls_eq_replicate (next_passGap given))

/-! ## All calls -/

theorem length_pulls (operators : OperatorTrie) (n : Nat) (cursor : Cursor) :
    (pulls operators n cursor).length = n := by
  induction n generalizing cursor with
  | zero => rfl
  | succ n ih => exact congrArg (· + 1) (ih _)

theorem take_pulls (operators : OperatorTrie) {m n : Nat} (le : m ≤ n) (cursor : Cursor) :
    (pulls operators n cursor).take m = pulls operators m cursor := by
  induction n generalizing m cursor with
  | zero =>
    obtain rfl := Nat.le_zero.mp le
    rfl
  | succ n ih =>
    cases m with
    | zero => rfl
    | succ m => exact congrArg (_ :: ·) (ih (Nat.le_of_succ_le_succ le) _)

/-- What is lexed is what the first calls give. -/
theorem deliveries_isPrefix (operators : OperatorTrie) (n : Nat) (cursor : Cursor) :
    deliveries operators n cursor <+: (pulls operators n cursor).map Prod.fst := by
  induction n generalizing cursor with
  | zero => exact List.nil_prefix
  | succ n ih =>
    rw [deliveries, pulls]
    rcases hn : cursor.next operators with ⟨e | t, after⟩
    · simp
    · dsimp only
      rw [List.map_cons]
      split
      · simp
      · exact (List.prefix_cons_inj _).mpr (ih after)

/-- At every state that the lexer comes to, also behind errors, a call gives a token and moves it
on, or passes a string constant without an end as far as its line goes, or gives the end of the file
or an unexpected character and so does every further call. So a source is lexed in no more calls
than it has characters, and one: there are tokens first, then the end of the file or an error, and
no further call would change what was lexed. -/
theorem lexer_progresses (source : String) :
    (∀ n, ∀ cursor ∈ cursors .standard n source,
      Advances cursor (cursor.next .standard) ∧ (cursor.next .standard).2.Within source) ∧
    (∃ (tokens : List Token) (last : Delivery), tokens.length + 1 ≤ source.length + 1 ∧
      (∀ t ∈ tokens, t.type ≠ .endOfFile) ∧ (∀ t, last = .ok t → t.type = .endOfFile) ∧
      (pulls .standard (tokens.length + 1) (.start source)).map Prod.fst =
        tokens.map .ok ++ [last] ∧
      tokenize source = last.map fun t => tokens ++ [t]) ∧
    ∀ n, source.length < n →
      collect (deliveries .standard n (.start source)) = tokenize source := by
  refine ⟨fun n cursor hc => ⟨cursor.advances_next, ?_⟩, ?_, fun n enough => ?_⟩
  · have within : cursor.Within source := by
      rcases List.mem_cons.mp hc with rfl | hc
      · exact Cursor.within_start source
      · exact (((Cursor.within_start source).pulls .standard n).1 cursor hc).1
    exact (within.next .standard).1
  · obtain ⟨tokens, last, given, lexed, delivers⟩ := exists_delivers_of_source source
    have front := deliveries_isPrefix .standard (source.length + 1) (.start source)
    rw [← deliveriesOf, given] at front
    have few : tokens.length + 1 ≤ source.length + 1 := by
      simpa [length_pulls] using front.length_le
    refine ⟨tokens, last, few, delivers.type_ne, delivers.endOfFile, ?_, lexed⟩
    rw [List.prefix_iff_eq_take.mp front, ← List.map_take, List.length_append, List.length_map,
      List.length_singleton, take_pulls _ few]
  · have enough : source.toList.length < n := by rwa [String.length_toList]
    exact (segmented_tokenize source).collect_eq n (.start source) rfl rfl enough

/-- A line with a string constant that has no end, and behind it a character that begins nothing. -/
def brokenSource : String := "x := \"a\n ?;"

theorem lexer_progresses_brokenSource :
    ⟨" \"a\n ?;".toList, 4, ⟨1, 5⟩⟩ ∈ cursors .standard 2 brokenSource ∧
      Advances ⟨" \"a\n ?;".toList, 4, ⟨1, 5⟩⟩
        (.error ⟨"Unterminated string literal", ⟨1, 6⟩⟩, ⟨"\n ?;".toList, 7, ⟨1, 8⟩⟩) ∧
      ⟨"\n ?;".toList, 7, ⟨1, 8⟩⟩ ∈ cursors .standard 3 brokenSource ∧
      Advances ⟨"\n ?;".toList, 7, ⟨1, 8⟩⟩
        (.error ⟨"Unexpected character '?'", ⟨2, 2⟩⟩, ⟨"?;".toList, 9, ⟨2, 2⟩⟩) ∧
      brokenSource.length < 40 ∧
      collect (deliveries .standard 40 (.start brokenSource)) =
        .error ⟨"Unterminated string literal", ⟨1, 6⟩⟩ := by
  obtain ⟨advances, -, enough⟩ := lexer_progresses brokenSource
  have string : ⟨" \"a\n ?;".toList, 4, ⟨1, 5⟩⟩ ∈ cursors .standard 2 brokenSource := by
    decide +kernel
  have sign : ⟨"\n ?;".toList, 7, ⟨1, 8⟩⟩ ∈ cursors .standard 3 brokenSource := by decide +kernel
  have few : brokenSource.length < 40 := by decide
  have given : (⟨" \"a\n ?;".toList, 4, ⟨1, 5⟩⟩ : Cursor).next .standard =
      (.error ⟨"Unterminated string literal", ⟨1, 6⟩⟩, ⟨"\n ?;".toList, 7, ⟨1, 8⟩⟩) := by
    decide +kernel
  have stuck : (⟨"\n ?;".toList, 7, ⟨1, 8⟩⟩ : Cursor).next .standard =
      (.error ⟨"Unexpected character '?'", ⟨2, 2⟩⟩, ⟨"?;".toList, 9, ⟨2, 2⟩⟩) := by
    decide +kernel
  refine ⟨string, given ▸ (advances 2 _ string).1, sign, stuck ▸ (advances 3 _ sign).1, few, ?_⟩
  rw [enough 40 few]
  decide +kernel

end BlockLang
