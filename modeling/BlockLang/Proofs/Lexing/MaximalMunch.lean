import BlockLang.Lexeme
import BlockLang.Proofs.Lexing.Tries

/-!
# Maximal munch

What a lexeme is, said without the scanner: the first character settles the class, the classes are
asked in their order, and the lexeme is as long as its class allows.

* A string constant runs to the first quote that no unpaired backslash stands before, and it ends on
  its line.
* A number constant is the longest run of digits, with a point and the longest run of digits behind
  it just when a digit follows the point.
* A word is the longest run of word characters. It is a keyword if it is spelled like one.
* An operator is the longest spelling of an operator.

## Main definitions

* `LongestRun p run rest`: the run of characters of a class in front of `rest`
* `EndsUnpaired`, `ClosesFirst`: what stands before the closing quote of a string constant
* `StringBody`: plain characters and pairs of a backslash and another character
* `Lexeme.Before lexeme rest`: the lexeme stands in front of `rest` and is as long as possible
* `Obstacle.At obstacle cs`: no lexeme begins the text

## Main results

* `closesFirst_iff`: the two descriptions of what string constants hold agree
* `Lexeme.Before.scan_eq`, `before_of_scan_eq_found`, `exists_scan_eq_stuck_iff`: the scanner finds
  the lexemes that there are
-/

namespace BlockLang

open Text

variable {p : Char → Bool} {c : Char} {cs run rest body : List Char}

/-- `run` holds characters of a class, and what follows does not go on with it. -/
structure LongestRun (p : Char → Bool) (run rest : List Char) : Prop where
  inside : ∀ c ∈ run, p c
  stops : ∀ c ∈ rest.head?, p c = false

theorem LongestRun.takeWhile_eq (h : LongestRun p run rest) : (run ++ rest).takeWhile p = run := by
  rw [List.takeWhile_append_of_pos h.inside]
  cases rest with
  | nil => simp
  | cons c rest => simp [h.stops c rfl]

/-- A text has one longest run in front. -/
theorem LongestRun.unique {run' rest' : List Char} (h : LongestRun p run rest)
    (h' : LongestRun p run' rest') (text : run ++ rest = run' ++ rest') :
    run = run' ∧ rest = rest' := by
  obtain rfl : run = run' := by rw [← h.takeWhile_eq, text, h'.takeWhile_eq]
  exact ⟨rfl, List.append_cancel_left text⟩

/-- A front part of a text whose characters are of a class is no longer than the longest run. -/
theorem LongestRun.length_le (h : LongestRun p run rest) (front : cs <+: run ++ rest)
    (inside : ∀ c ∈ cs, p c) : cs.length ≤ run.length := by
  obtain ⟨more, text⟩ := front
  have taken := h.takeWhile_eq
  rw [← text, List.takeWhile_append_of_pos inside] at taken
  rw [← taken, List.length_append]
  exact Nat.le_add_right ..

theorem longestRun_takeWhile (p : Char → Bool) (cs : List Char) :
    LongestRun p (cs.takeWhile p) (cs.drop (cs.takeWhile p).length) := by
  induction cs with
  | nil => exact ⟨by simp, by simp⟩
  | cons c cs ih =>
    by_cases hc : p c
    · rw [List.takeWhile_cons_of_pos hc]
      exact ⟨by simpa [hc] using ih.inside, ih.stops⟩
    · rw [List.takeWhile_cons_of_neg hc]
      exact ⟨by simp, by simpa using hc⟩

/-! ## String constants -/

/-- The backslashes at the end do not pair up: the last of them takes the next character with it. -/
def EndsUnpaired (cs : List Char) : Prop := (cs.reverse.takeWhile (· == '\\')).length % 2 = 1

theorem not_endsUnpaired_nil : ¬EndsUnpaired [] := by simp [EndsUnpaired]

theorem endsUnpaired_backslash : EndsUnpaired (cs ++ ['\\']) ↔ ¬EndsUnpaired cs := by
  simp only [EndsUnpaired, List.reverse_append, List.reverse_singleton, List.singleton_append,
    List.takeWhile_cons, beq_self_eq_true, if_true, List.length_cons]
  omega

theorem not_endsUnpaired_concat (hc : c ≠ '\\') : ¬EndsUnpaired (cs ++ [c]) := by
  simp [EndsUnpaired, hc]

/-- A backslash and the character that it takes with it leave nothing unpaired. -/
theorem not_endsUnpaired_pair (h : ¬EndsUnpaired cs) (c : Char) :
    ¬EndsUnpaired (cs ++ ['\\', c]) := by
  have split : cs ++ ['\\', c] = (cs ++ ['\\']) ++ [c] := by simp
  rw [split]
  by_cases hc : c = '\\'
  · rw [hc, endsUnpaired_backslash, endsUnpaired_backslash]
    exact not_not_intro h
  · exact not_endsUnpaired_concat hc

/-- Behind `seen`, the quote after `body` is the first one on the line that is not escaped. -/
structure ClosesFirst (seen body : List Char) : Prop where
  oneLine : '\n' ∉ body
  closes : ¬EndsUnpaired (seen ++ body)
  first : ∀ before after, body = before ++ '"' :: after → EndsUnpaired (seen ++ before)

/-- Plain characters, and pairs of a backslash and another character of the line. -/
inductive StringBody : List Char → Prop
  | nil : StringBody []
  | plain {c : Char} {body : List Char} (quote : c ≠ '"') (backslash : c ≠ '\\') (line : c ≠ '\n') :
      StringBody body → StringBody (c :: body)
  | pair {c : Char} {body : List Char} (line : c ≠ '\n') :
      StringBody body → StringBody ('\\' :: c :: body)

/-- What follows a part of the body is a body behind more characters. -/
theorem ClosesFirst.behind {seen : List Char} (run : List Char)
    (h : ClosesFirst seen (run ++ body)) :
    ClosesFirst (seen ++ run) body := by
  refine ⟨fun hl => h.oneLine (List.mem_append_right run hl), ?_, fun before after hb => ?_⟩
  · rw [List.append_assoc]
    exact h.closes
  · rw [List.append_assoc]
    exact h.first (run ++ before) after (by rw [hb, List.append_assoc])

theorem stringBody_of_closesFirst : ∀ {seen body : List Char}, ¬EndsUnpaired seen →
    ClosesFirst seen body → StringBody body
  | _, [], _, _ => .nil
  | seen, c :: body, hs, h => by
    have line : c ≠ '\n' := fun hc => h.oneLine (by simp [hc])
    have quote : c ≠ '"' := fun hc => by
      have escaped := h.first [] body (by simp [hc])
      rw [List.append_nil] at escaped
      exact hs escaped
    by_cases backslash : c = '\\'
    · subst backslash
      match body with
      | [] =>
        -- The backslash would escape the closing quote.
        exact absurd (endsUnpaired_backslash.mpr hs) h.closes
      | d :: body =>
        have line : d ≠ '\n' := fun hd => h.oneLine (by simp [hd])
        exact .pair line (stringBody_of_closesFirst (not_endsUnpaired_pair hs d)
          (h.behind ['\\', d]))
    · exact .plain quote backslash line (stringBody_of_closesFirst
        (not_endsUnpaired_concat backslash) (h.behind [c]))

/-- A part in front of a body whose quotes are escaped. -/
theorem ClosesFirst.append {seen : List Char} (run : List Char)
    (h : ClosesFirst (seen ++ run) body) (line : '\n' ∉ run)
    (escaped : ∀ before after, run = before ++ '"' :: after → EndsUnpaired (seen ++ before)) :
    ClosesFirst seen (run ++ body) := by
  refine ⟨by simp [line, h.oneLine], by simpa using h.closes, fun before after hb => ?_⟩
  -- The quote stands in the one part or in the other.
  rcases List.append_eq_append_iff.mp hb with ⟨as, rfl, hbody⟩ | ⟨as, rfl, hrun⟩
  · simpa using h.first as after hbody
  · cases as with
    | nil => simpa using h.first [] after hrun.symm
    | cons d as =>
      obtain ⟨rfl, -⟩ := List.cons.inj hrun
      exact escaped before as rfl

theorem closesFirst_of_stringBody (h : StringBody body) :
    ∀ {seen : List Char}, ¬EndsUnpaired seen → ClosesFirst seen body := by
  induction h with
  | nil => exact fun hs => ⟨by simp, by simpa using hs, by simp⟩
  | @plain c body quote backslash line _ ih =>
    intro seen hs
    refine (ih (not_endsUnpaired_concat backslash)).append [c] (by simpa using line.symm) ?_
    intro before after hb
    exact absurd (List.mem_singleton.mp (hb ▸ by simp)) quote.symm
  | @pair c body line _ ih =>
    intro seen hs
    refine (ih (not_endsUnpaired_pair hs c)).append ['\\', c] (by simpa using line.symm) ?_
    -- If `c` is a quote, the backslash before it has no partner yet.
    intro before after hb
    rcases before with _ | ⟨b, _ | ⟨b', before⟩⟩
    · simp at hb
    · obtain ⟨rfl, -⟩ := List.cons.inj hb
      exact endsUnpaired_backslash.mpr hs
    · simp at hb

/-- The two descriptions of what string constants hold agree. -/
theorem closesFirst_iff : ClosesFirst [] body ↔ StringBody body :=
  ⟨stringBody_of_closesFirst not_endsUnpaired_nil, fun h =>
    closesFirst_of_stringBody h not_endsUnpaired_nil⟩

/-- The scanner comes to the closing quote. -/
theorem StringBody.stringBody_eq (h : StringBody body) (rest : List Char) :
    stringBody (body ++ '"' :: rest) = body := by
  induction h with
  | nil => simp [stringBody]
  | plain quote backslash line _ ih => simp [stringBody, quote, backslash, line, ih]
  | pair line _ ih => simp [stringBody, line, ih]

/-- A quote at which the scanner stops is a closing one. -/
theorem stringBody_of_drop (h : cs.drop (stringBody cs).length = '"' :: rest) :
    StringBody (stringBody cs) := by
  fun_induction stringBody cs with
  | case1 => exact .nil
  | case2 => simp at h
  | case3 c cs line ih => exact .pair line (ih (by simpa using h))
  | case4 => exact .nil
  | case5 c cs pair plain ih =>
    rw [not_or] at plain
    refine .plain plain.1 (fun hc => ?_) plain.2 (ih (by simpa using h))
    -- A backslash stands here only at the end of the text, where no quote follows.
    cases cs with
    | nil => simp [stringBody] at h
    | cons d cs => exact pair d cs hc rfl

/-! ## Number constants -/

/-- Digits, with a point and more of them just when a digit follows the point. -/
inductive NumberRun : List Char → List Char → Prop
  | whole {run rest : List Char} (nonempty : run ≠ []) (digits : LongestRun isDigit run rest)
      (point : ∀ d more, rest = '.' :: d :: more → isDigit d = false) : NumberRun run rest
  | fraction {run more rest : List Char} (nonempty : run ≠ []) (inside : ∀ c ∈ run, isDigit c)
      (follows : more ≠ []) (digits : LongestRun isDigit more rest) :
      NumberRun (run ++ '.' :: more) rest

theorem isDigit_point : isDigit '.' = false := by decide +kernel

/-- Digits stop at a point. -/
theorem longestRun_point (inside : ∀ c ∈ run, isDigit c) (rest : List Char) :
    LongestRun isDigit run ('.' :: rest) := by
  refine ⟨inside, fun c hc => ?_⟩
  obtain rfl := Option.some.inj hc
  exact isDigit_point

theorem NumberRun.numberText_eq (h : NumberRun run rest) : numberText (run ++ rest) = run := by
  cases h with
  | whole _ digits point =>
    rw [numberText, digits.takeWhile_eq, List.drop_left]
    split
    · next d more => rw [if_neg (by simp [point d more rfl])]
    · rfl
  | @fraction run more _ _ inside follows digits =>
    have whole := longestRun_point inside (more ++ rest)
    rw [List.append_assoc, List.cons_append, numberText, whole.takeWhile_eq, List.drop_left]
    obtain ⟨d, more, rfl⟩ := List.exists_cons_of_ne_nil follows
    have first : isDigit d := digits.inside d List.mem_cons_self
    have taken := digits.takeWhile_eq
    simp only [List.cons_append] at taken ⊢
    rw [if_pos first, taken]

theorem numberRun_numberText (hc : isDigit c) :
    NumberRun (numberText (c :: cs)) ((c :: cs).drop (numberText (c :: cs)).length) := by
  have digits := longestRun_takeWhile isDigit (c :: cs)
  have nonempty : (c :: cs).takeWhile isDigit ≠ [] := by simp [hc]
  rw [numberText]
  split
  · next d more heq =>
    split
    · next hd =>
      have more_digits := longestRun_takeWhile isDigit (d :: more)
      refine .fraction nonempty digits.inside (by simp [hd]) ?_
      rw [List.length_append, ← List.drop_drop, heq]
      exact more_digits
    · next hd =>
      refine .whole nonempty digits fun e rest he => ?_
      rw [heq] at he
      cases he
      simpa using hd
  · next none =>
    exact .whole nonempty digits fun d more he => absurd he (none d more)

/-! ## Lexemes -/

/-- The character begins neither a constant nor a word. -/
structure IsSign (c : Char) : Prop where
  quote : c ≠ '"'
  digit : isDigit c = false
  word : isWordStart c = false

/-- The lexeme stands in front of `rest` and is as long as its class allows. -/
inductive Lexeme.Before : Lexeme → List Char → Prop
  | string {body rest : List Char} (h : ClosesFirst [] body) :
      Before ⟨.stringLiteral, body, '"' :: body ++ ['"']⟩ rest
  | number {run rest : List Char} (h : NumberRun run rest) : Before ⟨.numberLiteral, run, run⟩ rest
  | keyword {t : TokenType} {c : Char} {run rest : List Char} (digit : isDigit c = false)
      (start : isWordStart c) (h : LongestRun isWordChar (c :: run) rest)
      (spelled : keywords.find? (String.ofList (c :: run)) = some t) :
      Before ⟨t, c :: run, c :: run⟩ rest
  | identifier {c : Char} {run rest : List Char} (digit : isDigit c = false)
      (start : isWordStart c) (h : LongestRun isWordChar (c :: run) rest)
      (spelled : keywords.find? (String.ofList (c :: run)) = none) :
      Before ⟨.identifier, c :: run, c :: run⟩ rest
  | operator {t : TokenType} {c : Char} {run rest : List Char} (sign : IsSign c)
      (spelled : operators.find? (String.ofList (c :: run)) = some t)
      (longest : ∀ longer, longer <+: c :: run ++ rest → (c :: run).length < longer.length →
        operators.find? (String.ofList longer) = none) :
      Before ⟨t, c :: run, c :: run⟩ rest

/-- No lexeme begins the text: it is a string constant without a closing quote on its line, or its
first character begins no lexeme. -/
inductive Obstacle.At : Obstacle → List Char → Prop
  | unterminatedString {cs : List Char}
      (h : ∀ body rest, cs = body ++ '"' :: rest → ¬ClosesFirst [] body) :
      At .unterminatedString ('"' :: cs)
  | unexpected {c : Char} {cs : List Char} (sign : IsSign c)
      (h : ∀ run, run <+: c :: cs → operators.find? (String.ofList run) = none) :
      At (.unexpected c) (c :: cs)

theorem isDigit_quote : isDigit '"' = false := by decide +kernel

theorem isWordStart_quote : isWordStart '"' = false := by decide +kernel

/-- A lexeme does not begin with a gap, and it is not empty. -/
theorem Lexeme.Before.exists_cons {lexeme : Lexeme} (h : lexeme.Before rest) :
    ∃ c run, lexeme.written = c :: run := by
  cases h with
  | string => exact ⟨_, _, rfl⟩
  | number h =>
    cases h with
    | whole nonempty => exact List.exists_cons_of_ne_nil nonempty
    | fraction => exact List.exists_cons_of_ne_nil (by simp)
  | keyword | identifier | operator => exact ⟨_, _, rfl⟩

/-! ## The scanner -/

/-- The scanner finds the string constants that there are. -/
theorem scanString_eq_found (h : StringBody body) (rest : List Char) :
    scanString (body ++ '"' :: rest) =
      .found ⟨.stringLiteral, body, '"' :: body ++ ['"']⟩ := by
  rw [scanString, h.stringBody_eq, List.drop_left]
  rfl

/-- A string constant is found, or there is none. -/
theorem scanString_cases (cs : List Char) :
    (∃ body rest, cs = body ++ '"' :: rest ∧ StringBody body ∧
        scanString cs = .found ⟨.stringLiteral, body, '"' :: body ++ ['"']⟩) ∨
      ((∀ body rest, cs = body ++ '"' :: rest → ¬StringBody body) ∧
        ∃ passed, scanString cs = .stuck .unterminatedString passed) := by
  have split : stringBody cs ++ cs.drop (stringBody cs).length = cs :=
    List.prefix_iff_eq_append.mp (stringBody_isPrefix cs)
  cases hs : scanString cs with
  | found lexeme =>
    left
    rw [scanString] at hs
    split at hs
    · next rest heq =>
      cases hs
      exact ⟨_, rest, by rw [← heq, split], stringBody_of_drop heq, rfl⟩
    · cases hs
  | stuck obstacle passed =>
    right
    refine ⟨?_, ?_⟩
    · rintro body rest rfl closed
      rw [scanString_eq_found closed] at hs
      cases hs
    · rw [scanString] at hs
      split at hs
      · cases hs
      · cases hs
        exact ⟨_, rfl⟩

/-- A run in front of the text, and the text behind it. -/
theorem takeWhile_append_drop (p : Char → Bool) (cs : List Char) :
    cs.takeWhile p ++ cs.drop (cs.takeWhile p).length = cs :=
  List.prefix_iff_eq_append.mp (List.takeWhile_prefix p)

/-- The longest spelling of an operator in front of a text. -/
theorem longest?_standard_eq_some_iff {t : TokenType} :
    OperatorTrie.standard.longest? (run ++ rest) = some (t, run.length) ↔
      operators.find? (String.ofList run) = some t ∧
      ∀ longer, longer <+: run ++ rest → run.length < longer.length →
        operators.find? (String.ofList longer) = none := by
  rw [OperatorTrie.longest?_eq_some_iff]
  constructor
  · rintro ⟨-, spells, longest⟩
    rw [List.take_left, OperatorTrie.symbol?_standard] at spells
    exact ⟨spells, fun longer hl hn => OperatorTrie.symbol?_standard _ ▸ longest longer hl hn⟩
  · rintro ⟨spells, longest⟩
    refine ⟨by simp, ?_, fun longer hl hn => ?_⟩
    · rw [List.take_left, OperatorTrie.symbol?_standard, spells]
    · rw [OperatorTrie.symbol?_standard, longest longer hl hn]

/-- A lexeme that stands in front of the text is found. -/
theorem Lexeme.Before.scan_eq {lexeme : Lexeme} (h : lexeme.Before rest)
    (text : c :: cs = lexeme.written ++ rest) : scan .standard c cs = .found lexeme := by
  cases h with
  | @string body _ h =>
    have split : body ++ '"' :: rest = cs := by simpa using (List.cons.inj text).2.symm
    obtain rfl : c = '"' := (List.cons.inj text).1
    rw [scan, if_pos rfl, ← split, scanString_eq_found (closesFirst_iff.mp h)]
  | number h =>
    have digit : isDigit c := by
      cases h with
      | @whole run _ nonempty digits =>
        obtain ⟨d, run, rfl⟩ := List.exists_cons_of_ne_nil nonempty
        exact (List.cons.inj text).1 ▸ digits.inside d List.mem_cons_self
      | @fraction run _ _ nonempty inside =>
        obtain ⟨d, run, rfl⟩ := List.exists_cons_of_ne_nil nonempty
        exact (List.cons.inj text).1 ▸ inside d List.mem_cons_self
    have quote : c ≠ '"' := by
      rintro rfl
      cases isDigit_quote.symm.trans digit
    rw [scan, if_neg quote, if_pos digit, text, h.numberText_eq]
  | keyword digit start h spelled | identifier digit start h spelled =>
    obtain ⟨rfl, -⟩ := List.cons.inj text
    have quote : c ≠ '"' := by
      rintro rfl
      cases isWordStart_quote.symm.trans start
    have taken := h.takeWhile_eq
    rw [scan, if_neg quote, if_neg (by simp [digit]), if_pos start, text, taken]
    change Scan.found ⟨wordType _, _, _⟩ = _
    rw [wordType, spelled]
    rfl
  | @operator t d run _ sign spelled longest =>
    obtain ⟨rfl, -⟩ := List.cons.inj text
    rw [scan, if_neg sign.quote, if_neg (by simp [sign.digit]), if_neg (by simp [sign.word]), text,
      longest?_standard_eq_some_iff.mpr ⟨spelled, longest⟩]
    simp

/-- A lexeme that is found stands in front of the text. -/
theorem before_of_scan_eq_found {lexeme : Lexeme} (h : scan .standard c cs = .found lexeme) :
    ∃ rest, c :: cs = lexeme.written ++ rest ∧ lexeme.Before rest := by
  rw [scan] at h
  split at h
  · next quote =>
    subst quote
    rcases scanString_cases cs with ⟨body, rest, rfl, closed, found⟩ | ⟨-, passed, stuck⟩
    · cases found.symm.trans h
      exact ⟨rest, by simp, .string (closesFirst_iff.mpr closed)⟩
    · cases stuck.symm.trans h
  · next quote =>
    split at h
    · next digit =>
      cases h
      exact ⟨_, (List.prefix_iff_eq_append.mp (numberText_isPrefix _)).symm,
        .number (numberRun_numberText digit)⟩
    · next digit =>
      have plain : isDigit c = false := by simpa using digit
      split at h
      · next start =>
        cases h
        refine ⟨_, (takeWhile_append_drop isWordChar _).symm, ?_⟩
        have word := longestRun_takeWhile isWordChar (c :: cs)
        rw [List.takeWhile_cons_of_pos (isWordChar_of_isWordStart start)] at word ⊢
        rw [wordType]
        cases spelled : keywords.find? (String.ofList (c :: cs.takeWhile isWordChar)) with
        | some t => exact .keyword plain start word spelled
        | none => exact .identifier plain start word spelled
      · next word =>
        have sign : IsSign c := ⟨quote, plain, by simpa using word⟩
        split at h
        · next t n found =>
          cases h
          -- No operator is empty, so the match begins with the first character.
          have isLongest := OperatorTrie.longest?_eq_some_iff.mp found
          obtain ⟨n, rfl⟩ : ∃ m, n = m + 1 := by
            refine Nat.exists_eq_succ_of_ne_zero fun hn => ?_
            subst hn
            cases isLongest.spells.symm.trans (OperatorTrie.symbol?_standard [])
          have length_eq : ((c :: cs).take (n + 1)).length = n + 1 := by
            rw [List.length_take, Nat.min_eq_left isLongest.length_le]
          have split : (c :: cs).take (n + 1) ++ (c :: cs).drop (n + 1) = c :: cs :=
            List.take_append_drop _ _
          rw [← split, ← congrArg (fun m => some (t, m)) length_eq] at found
          obtain ⟨spelled, longest⟩ := longest?_standard_eq_some_iff.mp found
          exact ⟨_, split.symm, .operator sign spelled longest⟩
        · cases h

/-- The scanner is stuck just where no lexeme begins the text. -/
theorem exists_scan_eq_stuck_iff {obstacle : Obstacle} :
    (∃ passed, scan .standard c cs = .stuck obstacle passed) ↔ obstacle.At (c :: cs) := by
  constructor
  · rintro ⟨passed, h⟩
    rw [scan] at h
    split at h
    · next quote =>
      subst quote
      rcases scanString_cases cs with ⟨body, rest, rfl, -, found⟩ | ⟨none, passed, stuck⟩
      · cases found.symm.trans h
      · cases stuck.symm.trans h
        exact .unterminatedString fun body rest hb => mt closesFirst_iff.mp (none body rest hb)
    · next quote =>
      split at h
      · cases h
      · next digit =>
        split at h
        · cases h
        · next word =>
          split at h
          · cases h
          · next none =>
            cases h
            refine .unexpected ⟨quote, by simpa using digit, by simpa using word⟩ fun run hr => ?_
            rw [← OperatorTrie.symbol?_standard]
            exact OperatorTrie.longest?_eq_none_iff.mp none run hr
  · intro h
    cases h with
    | unterminatedString h =>
      rcases scanString_cases cs with ⟨body, rest, hb, closed, -⟩ | ⟨-, stuck⟩
      · exact absurd (closesFirst_iff.mpr closed) (h body rest hb)
      · exact stuck
    | unexpected sign h =>
      have none : OperatorTrie.standard.longest? (c :: cs) = none :=
        OperatorTrie.longest?_eq_none_iff.mpr fun run hr => by
          rw [OperatorTrie.symbol?_standard, h run hr]
      exact ⟨[], by simp [scan, sign.quote, sign.digit, sign.word, none]⟩

end BlockLang
