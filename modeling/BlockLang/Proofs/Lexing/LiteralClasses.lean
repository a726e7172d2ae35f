import BlockLang.Proofs.GrammarFile.Patterns
import BlockLang.Proofs.Lexing.Deliveries
import Mathlib.Data.Char

/-!
# Literal classes and their patterns

The grammar file declares a pattern for each literal class, but the lexer scans with classes of
characters that go beyond those of the patterns: letters and digits of any script, and signs with a
numeric value inside words. So string constants are what their pattern matches, and identifiers and
number constants are just as long as they have no other characters than those of ASCII.

## Main results

* `has_wordStarts_iff`, `has_wordChars_iff`, `has_digits_iff`: the classes of the patterns are those
  of the lexer within ASCII
* `mem_identifierPattern`, `mem_numberPattern`, `mem_stringPattern`: what the patterns match
* `literal_matches_pattern_iff`: when a literal token is what its pattern matches
-/

namespace BlockLang

open Text Pattern

variable {p : Pattern} {k : CharClass} {c : Char} {cs run rest body more : List Char}

/-! ## Classes of characters -/

/-- A class of ASCII characters is told by what it has of ASCII. -/
theorem has_iff_of_ascii {member : Char → Bool} (plain : k.negated = false)
    (low : ∀ range ∈ k.ranges, range.2.toNat < 128)
    (same : ∀ n < 128, k.has (Char.ofNat n) = member (Char.ofNat n)) :
    k.has c ↔ member c ∧ c.toNat < 128 := by
  have ascii (h : k.has c) : c.toNat < 128 := by
    simp only [CharClass.has, plain, Bool.bne_false, List.any_eq_true, Bool.and_eq_true,
      decide_eq_true_eq] at h
    obtain ⟨range, hr, -, le⟩ := h
    exact Nat.lt_of_le_of_lt le (low range hr)
  have agrees (hc : c.toNat < 128) : k.has c = member c := by
    have := same c.toNat hc
    rwa [Char.ofNat_toNat] at this
  exact ⟨fun h => ⟨agrees (ascii h) ▸ h, ascii h⟩, fun h => agrees h.2 ▸ h.1⟩

theorem has_wordStarts_iff : wordStarts.has c ↔ isWordStart c ∧ c.toNat < 128 :=
  has_iff_of_ascii rfl (by decide) (by decide +kernel)

theorem has_wordChars_iff : wordChars.has c ↔ isWordChar c ∧ c.toNat < 128 :=
  has_iff_of_ascii rfl (by decide) (by decide +kernel)

theorem has_digits_iff : digits.has c ↔ isDigit c ∧ c.toNat < 128 :=
  has_iff_of_ascii rfl (by decide) (by decide +kernel)

/-- A range of one character. -/
theorem within_self (c d : Char) : (decide (d ≤ c) && decide (c ≤ d)) = decide (c = d) := by
  rw [← Bool.decide_and]
  exact decide_eq_decide.mpr ⟨fun h => le_antisymm h.2 h.1, fun h => ⟨h.ge, h.le⟩⟩

theorem has_only_iff {d : Char} : (CharClass.only d).has c ↔ c = d := by
  simp [CharClass.has, CharClass.only, within_self]

theorem has_ofLine_iff : CharClass.ofLine.has c ↔ c ≠ '\n' := by
  simp [CharClass.has, CharClass.ofLine, within_self]

theorem has_unquoted_iff : unquoted.has c ↔ c ≠ '"' ∧ c ≠ '\\' ∧ c ≠ '\n' := by
  simp [CharClass.has, unquoted, within_self]

/-! ## What the patterns match -/

theorem mem_identifierPattern : cs ∈ identifierPattern.language ↔
    ∃ c run, cs = c :: run ∧ wordStarts.has c ∧ ∀ d ∈ run, wordChars.has d := by
  simp only [identifierPattern, mem_concat_one, language_concat_empty, mem_many_one]

theorem mem_digitRun : cs ∈ digitRun.language ↔ cs ≠ [] ∧ ∀ c ∈ cs, digits.has c := mem_plus_one

theorem mem_fraction : cs ∈ fraction.language ↔
    cs = [] ∨ ∃ more ∈ digitRun.language, cs = '.' :: more := by
  rw [fraction, language_concat_empty, mem_either, mem_empty, mem_concat_one, or_comm]
  simp [has_only_iff, language_concat_empty, and_comm]

theorem mem_numberPattern : cs ∈ numberPattern.language ↔ ∃ run ∈ digitRun.language,
    cs = run ∨ ∃ more ∈ digitRun.language, cs = run ++ '.' :: more := by
  simp only [numberPattern, mem_concat, mem_fraction]
  constructor
  · rintro ⟨run, hr, rest, rfl | ⟨more, hm, rfl⟩, rfl⟩
    · exact ⟨run, hr, .inl (List.append_nil run)⟩
    · exact ⟨run, hr, .inr ⟨more, hm, rfl⟩⟩
  · rintro ⟨run, hr, rfl | ⟨more, hm, rfl⟩⟩
    · exact ⟨cs, hr, [], .inl rfl, List.append_nil cs⟩
    · exact ⟨run, hr, _, .inr ⟨more, hm, rfl⟩, rfl⟩

theorem mem_quotedPart : cs ∈ quotedPart.language ↔
    (∃ c, cs = [c] ∧ unquoted.has c) ∨ ∃ c, cs = ['\\', c] ∧ CharClass.ofLine.has c := by
  simp [quotedPart, mem_either, mem_concat_one, mem_empty, has_only_iff]

/-- Between the quotes, the pattern has what string constants hold. -/
theorem mem_many_quotedPart : body ∈ (many quotedPart).language ↔ StringBody body := by
  rw [language, Language.mem_kstar]
  constructor
  · rintro ⟨parts, rfl, h⟩
    induction parts with
    | nil => exact .nil
    | cons part parts ih =>
      obtain ⟨here, others⟩ := List.forall_mem_cons.mp h
      rw [List.flatten_cons]
      rcases mem_quotedPart.mp here with ⟨c, rfl, hc⟩ | ⟨c, rfl, hc⟩
      · obtain ⟨quote, backslash, line⟩ := has_unquoted_iff.mp hc
        exact .plain quote backslash line (ih others)
      · exact .pair (has_ofLine_iff.mp hc) (ih others)
  · intro h
    induction h with
    | nil => exact ⟨[], rfl, List.forall_mem_nil _⟩
    | @plain c body quote backslash line _ ih =>
      obtain ⟨parts, rfl, others⟩ := ih
      have here : [c] ∈ quotedPart.language :=
        mem_quotedPart.mpr (.inl ⟨c, rfl, has_unquoted_iff.mpr ⟨quote, backslash, line⟩⟩)
      exact ⟨[c] :: parts, rfl, List.forall_mem_cons.mpr ⟨here, others⟩⟩
    | @pair c body line _ ih =>
      obtain ⟨parts, rfl, others⟩ := ih
      have here : ['\\', c] ∈ quotedPart.language :=
        mem_quotedPart.mpr (.inr ⟨c, rfl, has_ofLine_iff.mpr line⟩)
      exact ⟨['\\', c] :: parts, rfl, List.forall_mem_cons.mpr ⟨here, others⟩⟩

theorem mem_stringPattern : cs ∈ stringPattern.language ↔
    ∃ body, StringBody body ∧ cs = '"' :: (body ++ ['"']) := by
  have last (cs : List Char) :
      cs ∈ (concat (one (.only '"')) empty).language ↔ cs = ['"'] := by
    simp [mem_concat_one, mem_empty, has_only_iff]
  rw [stringPattern, mem_concat_one]
  constructor
  · rintro ⟨c, rest, rfl, first, hr⟩
    obtain ⟨body, hb, more, hm, rfl⟩ := mem_concat.mp hr
    exact ⟨body, mem_many_quotedPart.mp hb, by rw [has_only_iff.mp first, (last more).mp hm]⟩
  · rintro ⟨body, hb, rfl⟩
    exact ⟨'"', body ++ ['"'], rfl, has_only_iff.mpr rfl,
      mem_concat.mpr ⟨body, mem_many_quotedPart.mpr hb, ['"'], (last _).mpr rfl, rfl⟩⟩

/-! ## Literal lexemes -/

/-- An identifier is what its pattern matches, if it is of ASCII characters. -/
theorem identifier_matchesFront_iff (start : isWordStart c)
    (h : LongestRun isWordChar (c :: run) rest) :
    identifierPattern.MatchesFront (c :: run) rest ↔ ∀ d ∈ c :: run, d.toNat < 128 := by
  constructor
  · intro front
    obtain ⟨d, more, same, first, inside⟩ := mem_identifierPattern.mp front.matched
    obtain ⟨rfl, rfl⟩ := List.cons.inj same
    exact List.forall_mem_cons.mpr
      ⟨(has_wordStarts_iff.mp first).2, fun d hd => (has_wordChars_iff.mp (inside d hd)).2⟩
  · intro ascii
    obtain ⟨first, others⟩ := List.forall_mem_cons.mp ascii
    refine ⟨mem_identifierPattern.mpr ⟨c, run, rfl, has_wordStarts_iff.mpr ⟨start, first⟩,
      fun d hd => has_wordChars_iff.mpr ⟨h.inside d (List.mem_cons_of_mem c hd), others d hd⟩⟩,
      fun longer front matched => h.length_le front ?_⟩
    obtain ⟨d, more, rfl, first, inside⟩ := mem_identifierPattern.mp matched
    exact List.forall_mem_cons.mpr ⟨isWordChar_of_isWordStart (has_wordStarts_iff.mp first).1,
      fun d hd => (has_wordChars_iff.mp (inside d hd)).1⟩

/-- No number is longer than the one that the lexer takes. -/
theorem NumberRun.length_le {longer whole : List Char} (h : NumberRun run rest)
    (front : longer <+: run ++ rest) (nonempty : whole ≠ []) (inside : ∀ c ∈ whole, isDigit c)
    (number : longer = whole ∨
      ∃ more, longer = whole ++ '.' :: more ∧ more ≠ [] ∧ ∀ c ∈ more, isDigit c) :
    longer.length ≤ run.length := by
  cases h with
  | whole _ digits point =>
    rcases number with rfl | ⟨more, rfl, follows, digits'⟩
    · exact digits.length_le front inside
    · -- A digit would follow the point behind the longest run.
      obtain ⟨tail, text⟩ := front
      rw [List.append_assoc] at text
      obtain ⟨rfl, rest_eq⟩ := (longestRun_point inside (more ++ tail)).unique digits text
      obtain ⟨d, more, rfl⟩ := List.exists_cons_of_ne_nil follows
      have digit := digits' d List.mem_cons_self
      rw [point d (more ++ tail) rest_eq.symm] at digit
      cases digit
  | @fraction before behind _ _ inside' _ digits =>
    rw [List.append_assoc] at front
    have first := longestRun_point inside' (behind ++ rest)
    rcases number with rfl | ⟨more, rfl, -, digits'⟩
    · refine (first.length_le front inside).trans ?_
      rw [List.length_append]
      exact Nat.le_add_right ..
    · obtain ⟨tail, text⟩ := front
      rw [List.append_assoc] at text
      obtain ⟨rfl, rest_eq⟩ := (longestRun_point inside (more ++ tail)).unique first text
      have shorter := digits.length_le ⟨tail, (List.cons.inj rest_eq).2⟩ digits'
      simp only [List.length_append, List.length_cons]
      omega

theorem mem_digitRun_iff_isDigit :
    cs ∈ digitRun.language ↔ cs ≠ [] ∧ (∀ c ∈ cs, isDigit c) ∧ ∀ c ∈ cs, c.toNat < 128 := by
  rw [mem_digitRun]
  simp only [has_digits_iff, forall_and]

/-- A number constant is what its pattern matches, if it is of ASCII characters. -/
theorem number_matchesFront_iff (h : NumberRun run rest) :
    numberPattern.MatchesFront run rest ↔ ∀ c ∈ run, c.toNat < 128 := by
  constructor
  · intro front
    obtain ⟨whole, hw, rfl | ⟨more, hm, rfl⟩⟩ := mem_numberPattern.mp front.matched
    · exact (mem_digitRun_iff_isDigit.mp hw).2.2
    · have point : '.'.toNat < 128 := by decide
      simpa [or_imp, forall_and, point] using
        And.intro (mem_digitRun_iff_isDigit.mp hw).2.2 (mem_digitRun_iff_isDigit.mp hm).2.2
  · intro ascii
    refine ⟨mem_numberPattern.mpr ?_, fun longer front matched => ?_⟩
    · cases h with
      | whole nonempty digits =>
        exact ⟨run, mem_digitRun_iff_isDigit.mpr ⟨nonempty, digits.inside, ascii⟩, .inl rfl⟩
      | @fraction whole more _ nonempty inside follows digits =>
        simp only [List.mem_append, List.mem_cons, or_imp, forall_and] at ascii
        exact ⟨whole, mem_digitRun_iff_isDigit.mpr ⟨nonempty, inside, ascii.1⟩, .inr ⟨more,
          mem_digitRun_iff_isDigit.mpr ⟨follows, digits.inside, ascii.2.2⟩, rfl⟩⟩
    · obtain ⟨whole, hw, number⟩ := mem_numberPattern.mp matched
      obtain ⟨nonempty, inside, -⟩ := mem_digitRun_iff_isDigit.mp hw
      refine h.length_le front nonempty inside (number.imp id ?_)
      rintro ⟨more, hm, rfl⟩
      obtain ⟨follows, digits, -⟩ := mem_digitRun_iff_isDigit.mp hm
      exact ⟨more, rfl, follows, digits⟩

/-- A string constant is what its pattern matches. -/
theorem string_matchesFront (h : StringBody body) (rest : List Char) :
    stringPattern.MatchesFront ('"' :: body ++ ['"']) rest := by
  refine ⟨mem_stringPattern.mpr ⟨body, h, rfl⟩, fun longer front matched => ?_⟩
  obtain ⟨other, ho, rfl⟩ := mem_stringPattern.mp matched
  obtain ⟨tail, text⟩ := front
  -- The first quote that closes a body is the same one.
  have same : other ++ '"' :: tail = body ++ '"' :: rest := by simpa using text
  have eq : other = body := by rw [← ho.stringBody_eq tail, same, h.stringBody_eq]
  rw [eq]
  rfl

/-- The pattern of the class of a literal lexeme matches the lexeme as the longest front of the
text, just if it has no other characters than those of ASCII or is a string constant. -/
theorem Lexeme.Before.exists_matchesFront_iff {lexeme : Lexeme} (h : lexeme.Before rest)
    (literal : lexeme.type.isLiteral) : ∃ p, declaredPattern? lexeme.type = some p ∧
      (p.MatchesFront lexeme.written rest ↔
        lexeme.type = .stringLiteral ∨ ∀ c ∈ lexeme.written, c.toNat < 128) := by
  have keyword : ∀ entry ∈ keywords.entries, entry.2.isLiteral = false := by decide
  have operator : ∀ entry ∈ operators.entries, entry.2.isLiteral = false := by decide
  cases h with
  | @string body _ closes =>
    exact ⟨_, declaredPattern?_stringLiteral,
      iff_of_true (string_matchesFront (closesFirst_iff.mp closes) rest) (.inl rfl)⟩
  | number run => exact ⟨_, declaredPattern?_numberLiteral, by simp [number_matchesFront_iff run]⟩
  | identifier _ start run =>
    exact ⟨_, declaredPattern?_identifier, by simp [identifier_matchesFront_iff start run]⟩
  | keyword _ _ _ spelled =>
    have := keyword _ (Dictionary.mem_of_findEntry_eq_some spelled)
    rw [this] at literal
    cases literal
  | operator _ spelled =>
    have := operator _ (Dictionary.mem_of_findEntry_eq_some spelled)
    rw [this] at literal
    cases literal

/-! ## Literal tokens -/

/-- Wherever the lexer stands in a source after any calls, also behind errors, and whatever literal
token it gives next: the token is written at its position, and the pattern of its class matches what
is written, as the longest front of the rest of the source, just if the token is a string constant
or has no other characters than those of ASCII. -/
theorem literal_matches_pattern_iff {source : String} {n : Nat} {cursor after : Cursor} {t : Token}
    (stands : cursor ∈ cursors .standard n source)
    (given : cursor.next .standard = (.ok t, after)) (literal : t.type.isLiteral) :
    ∃ p front, declaredPattern? t.type = some p ∧
      source.toList = front ++ (t.written ++ after.rest) ∧ t.position = .behind front ∧
      (p.MatchesFront t.written after.rest ↔
        t.type = .stringLiteral ∨ ∀ c ∈ t.written, c.toNat < 128) := by
  have within : cursor.Within source := by
    rcases List.mem_cons.mp stands with rfl | stands
    · exact Cursor.within_start source
    · exact (((Cursor.within_start source).pulls .standard n).1 cursor stands).1
  have cases := cursor.next_cases
  simp only [given] at cases
  rcases cases with last | ⟨gap, u, rest, offset, text, before, placed, next⟩ |
    ⟨_, _, _, _, _, _, ⟨⟩⟩
  · obtain rfl := Except.ok.inj last
    cases literal
  · obtain ⟨same, rfl⟩ := Prod.mk.inj next
    obtain rfl := Except.ok.inj same
    obtain ⟨p, declared, matched⟩ := before.exists_matchesFront_iff literal
    refine ⟨p, source.toList.take cursor.offset ++ gap, declared, ?_, ?_, matched⟩
    · rw [List.append_assoc, ← text, within.rest_eq, List.take_append_drop]
    · rw [placed, within.position_eq, Position.behind_append]

/-- A string constant without an end, and a number on the next line. -/
def openLine : String := "\"é\n2.5"

theorem literal_matches_pattern_openLine :
    (⟨"\n2.5".toList, 2, ⟨1, 3⟩⟩ : Cursor) ∈ cursors .standard 1 openLine ∧
      (⟨"\n2.5".toList, 2, ⟨1, 3⟩⟩ : Cursor).next .standard =
        (.ok ⟨.numberLiteral, "2.5", ⟨2, 1⟩⟩, ⟨[], 6, ⟨2, 4⟩⟩) ∧
      ∃ p front, declaredPattern? .numberLiteral = some p ∧
        openLine.toList = front ++ "2.5".toList ∧ ⟨2, 1⟩ = Position.behind front ∧
        p.MatchesFront "2.5".toList [] := by
  have stands : (⟨"\n2.5".toList, 2, ⟨1, 3⟩⟩ : Cursor) ∈ cursors .standard 1 openLine := by
    decide +kernel
  have given : (⟨"\n2.5".toList, 2, ⟨1, 3⟩⟩ : Cursor).next .standard =
      (.ok ⟨.numberLiteral, "2.5", ⟨2, 1⟩⟩, ⟨[], 6, ⟨2, 4⟩⟩) := by decide +kernel
  obtain ⟨p, front, declared, text, placed, matched⟩ :=
    literal_matches_pattern_iff stands given rfl
  exact ⟨stands, given, p, front, declared, text, placed,
    matched.mpr (.inr (by simp [Token.written]))⟩

/-- A word with an accent. -/
def accentedWord : String := "xé"

/-- The lexer takes all of a word with an accent, of which the pattern of identifiers matches the
first letter alone. -/
theorem accentedWord_exceeds_pattern :
    (Cursor.start accentedWord).next .standard =
        (.ok ⟨.identifier, "xé", ⟨1, 1⟩⟩, ⟨[], 2, ⟨1, 3⟩⟩) ∧
      ∃ p, declaredPattern? .identifier = some p ∧
        accentedWord.toList ∉ p.language ∧ p.MatchesFront ['x'] ['é'] := by
  have accent : wordChars.has 'é' = false := by decide +kernel
  have word : accentedWord.toList = ['x', 'é'] := by decide +kernel
  refine ⟨by decide +kernel, identifierPattern, declaredPattern?_identifier, ?_, ?_, ?_⟩
  · rw [word, mem_identifierPattern]
    rintro ⟨c, run, same, -, inside⟩
    obtain ⟨-, rfl⟩ := List.cons.inj same
    cases accent.symm.trans (inside 'é' (List.mem_singleton_self _))
  · exact mem_identifierPattern.mpr ⟨'x', [], rfl, by decide +kernel, List.forall_mem_nil _⟩
  · rintro longer ⟨more, text⟩ matched
    obtain ⟨c, run, rfl, -, inside⟩ := mem_identifierPattern.mp matched
    cases run with
    | nil => exact Nat.le_refl _
    | cons d run =>
      obtain rfl : d = 'é' := (List.cons.inj (List.cons.inj text).2).1
      cases accent.symm.trans (inside 'é' List.mem_cons_self)

end BlockLang
