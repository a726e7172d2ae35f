import BlockLang.Proofs.Lexing.Tiling

/-!
# Printable tokens

A token is printable if its text is one that its class allows. In front of a gap, a printable token
is as long as its class allows, because a gap goes on with no lexeme; and all tokens that the lexer
gives are printable.

## Main definitions

* `rangesApart`: two increasing lists of ranges have no code point in common
* `isWord`, `IsNumber`, `Token.Printable`: the texts that tokens can have

## Main results

* `isDigit_of_isWordStart`: what begins a word is no digit
* `spelling?_eq_some_iff`: keywords and operators are what has a spelling
* `Token.Printable.before`: a printable token ends in front of a gap
* `Token.printable_of_before`: what the lexer takes for a token is printable
-/

namespace BlockLang

open Text

variable {c : Char} {cs run rest : List Char} {lexeme : Lexeme} {t : Token}

/-! ## Classes of characters -/

/-- The ranges of two increasing lists do not meet. For each of the first list, those of the second
that end before it are passed, and the next one has to begin behind it. -/
def rangesApart : List (Nat × Nat) → List (Nat × Nat) → Bool
  | [], _ => true
  | r :: rs, ss =>
    let ss := ss.dropWhile (·.2 < r.1)
    ss.head?.all (r.2 < ·.1) && rangesApart rs ss

/-- Ranges that end before a code point may be passed. -/
theorem inRanges_dropWhile {ss : List (Nat × Nat)} {k n : Nat} (hk : k ≤ n)
    (h : inRanges ss n = true) : inRanges (ss.dropWhile (·.2 < k)) n = true := by
  induction ss with
  | nil => exact h
  | cons s ss ih =>
    by_cases hs : s.2 < k
    · rw [List.dropWhile_cons_of_pos (by simpa using hs)]
      rw [inRanges_cons] at h
      simp only [Bool.and_eq_true, Bool.or_eq_true, decide_eq_true_eq] at h
      exact ih (h.2.resolve_left (by omega))
    · rwa [List.dropWhile_cons_of_neg (by simpa using hs)]

theorem inRanges_of_rangesApart {rs ss : List (Nat × Nat)} {n : Nat} (h : rangesApart rs ss = true)
    (hr : inRanges rs n = true) : inRanges ss n = false := by
  induction rs generalizing ss with
  | nil => cases hr
  | cons r rs ih =>
    simp only [rangesApart, Bool.and_eq_true] at h
    rw [inRanges_cons] at hr
    simp only [Bool.and_eq_true, Bool.or_eq_true, Bool.not_eq_true', decide_eq_false_iff_not,
      decide_eq_true_eq, Nat.not_lt] at hr
    by_contra hs
    have passed := inRanges_dropWhile hr.1 (Bool.of_not_eq_false hs)
    rcases hr.2 with inside | further
    · -- The code point lies in the first range, and the next one begins behind that.
      generalize ss.dropWhile (·.2 < r.1) = left at h passed
      cases left with
      | nil => cases passed
      | cons s left =>
        rw [inRanges_cons] at passed
        simp only [Bool.and_eq_true, Bool.not_eq_true', decide_eq_false_iff_not] at passed
        have := h.1
        simp only [List.head?_cons, Option.all_some, decide_eq_true_eq] at this
        omega
    · rw [ih h.2 further] at passed
      cases passed

theorem rangesApart_letter_decimal : rangesApart letterRanges decimalRanges = true := by
  decide +kernel

theorem rangesApart_letter_digitSign : rangesApart letterRanges digitSignRanges = true := by
  decide +kernel

theorem isDigit_lowLine : isDigit '_' = false := by decide +kernel

/-- What begins a word is no digit. -/
theorem isDigit_of_isWordStart (h : isWordStart c) : isDigit c = false := by
  simp only [isWordStart, Bool.or_eq_true, beq_iff_eq] at h
  rcases h with letter | rfl
  · simp [isDigit, isDecimal, inRanges_of_rangesApart rangesApart_letter_decimal letter,
      inRanges_of_rangesApart rangesApart_letter_digitSign letter]
  · exact isDigit_lowLine

/-- The characters of gaps stand neither in words nor in numbers, nor in the signs of operators. -/
theorem isGap_cases (h : isGap c) :
    isWordChar c = false ∧ isDigit c = false ∧ c ≠ '.' ∧ c ≠ '"' ∧
      ∀ entry ∈ operators.entries, c ∉ entry.1.toList := by
  have gaps : c = ' ' ∨ c = '\t' ∨ c = '\n' ∨ c = '\r' := by
    simpa [isGap, or_assoc] using h
  rcases gaps with rfl | rfl | rfl | rfl <;> decide +kernel

/-- What begins with a gap does not go on with a run of other characters. -/
theorem longestRun_of_isGap {p : Char → Bool} (inside : ∀ c ∈ run, p c)
    (stops : ∀ c ∈ rest.head?, isGap c) (other : ∀ c, isGap c → p c = false) :
    LongestRun p run rest :=
  ⟨inside, fun c hc => other c (stops c hc)⟩

/-! ## Printable tokens -/

/-- A letter or a low line, and word characters behind it. -/
def isWord : List Char → Bool
  | [] => false
  | c :: run => isWordStart c && run.all isWordChar

/-- A run of digits, or two of them with a point between. -/
inductive IsNumber : List Char → Prop
  | whole {run : List Char} (nonempty : run ≠ []) (digits : ∀ c ∈ run, isDigit c) : IsNumber run
  | fraction {run more : List Char} (nonempty : run ≠ []) (digits : ∀ c ∈ run, isDigit c)
      (follows : more ≠ []) (others : ∀ c ∈ more, isDigit c) : IsNumber (run ++ '.' :: more)

/-- The text of the token is one that its class allows. -/
inductive Token.Printable (t : Token) : Prop
  | identifier (type : t.type = .identifier) (word : isWord t.value.toList)
      (plain : keywords.find? t.value = none)
  | number (type : t.type = .numberLiteral) (number : IsNumber t.value.toList)
  | string (type : t.type = .stringLiteral) (body : StringBody t.value.toList)
  | spelled (spelling : t.type.spelling? = some t.value)

/-- Keywords and operators are what has a spelling. -/
theorem spelling?_eq_some_iff {type : TokenType} {s : String} :
    type.spelling? = some s ↔ keywords.find? s = some type ∨ operators.find? s = some type := by
  have forth : ∀ type ∈ TokenType.all, ∀ s ∈ type.spelling?,
      keywords.find? s = some type ∨ operators.find? s = some type := by decide
  have keyword : ∀ entry ∈ keywords.entries, entry.2.spelling? = some entry.1 := by decide
  have operator : ∀ entry ∈ operators.entries, entry.2.spelling? = some entry.1 := by decide
  constructor
  · exact fun h => forth type type.mem_all s h
  · rintro (h | h)
    · exact keyword _ (Dictionary.mem_of_findEntry_eq_some h)
    · exact operator _ (Dictionary.mem_of_findEntry_eq_some h)

/-- Keywords are words. -/
theorem isWord_of_keyword {s : String} {type : TokenType} (h : keywords.find? s = some type) :
    isWord s.toList := by
  have words : ∀ entry ∈ keywords.entries, isWord entry.1.toList := by decide +kernel
  exact words _ (Dictionary.mem_of_findEntry_eq_some h)

/-- A word ends in front of a gap. -/
theorem exists_cons_of_isWord (h : isWord cs) (stops : ∀ c ∈ rest.head?, isGap c) :
    ∃ c run, cs = c :: run ∧ isDigit c = false ∧ isWordStart c ∧
      LongestRun isWordChar (c :: run) rest := by
  cases cs with
  | nil => cases h
  | cons c run =>
    obtain ⟨start, inside⟩ := Bool.and_eq_true_iff.mp h
    refine ⟨c, run, rfl, isDigit_of_isWordStart start, start,
      longestRun_of_isGap ?_ stops fun d hd => (isGap_cases hd).1⟩
    simpa using ⟨isWordChar_of_isWordStart start, List.all_eq_true.mp inside⟩

/-- A number ends in front of a gap. -/
theorem IsNumber.numberRun (h : IsNumber cs) (stops : ∀ c ∈ rest.head?, isGap c) :
    NumberRun cs rest := by
  cases h with
  | whole nonempty digits =>
    refine .whole nonempty (longestRun_of_isGap digits stops fun d hd => (isGap_cases hd).2.1) ?_
    rintro d more rfl
    exact absurd rfl (isGap_cases (stops '.' rfl)).2.2.1
  | fraction nonempty digits follows others =>
    exact .fraction nonempty digits follows
      (longestRun_of_isGap others stops fun d hd => (isGap_cases hd).2.1)

/-- An operator ends in front of a gap. -/
theorem before_of_operator {type : TokenType}
    (spelled : operators.find? (String.ofList cs) = some type)
    (stops : ∀ c ∈ rest.head?, isGap c) : (Lexeme.mk type cs cs).Before rest := by
  have signs : ∀ entry ∈ operators.entries, entry.1.toList.head?.any fun c =>
      c != '"' && !isDigit c && !isWordStart c := by decide +kernel
  have first := signs _ (Dictionary.mem_of_findEntry_eq_some spelled)
  rw [String.toList_ofList, Option.any_eq_true] at first
  obtain ⟨c, head, sign⟩ := first
  obtain ⟨run, rfl⟩ := List.head?_eq_some_iff.mp head
  simp only [Bool.and_eq_true, bne_iff_ne, Bool.not_eq_true'] at sign
  obtain ⟨⟨quote, digit⟩, word⟩ := sign
  refine .operator ⟨quote, digit, word⟩ spelled fun longer hl hn => ?_
  -- A longer spelling would hold the first character of the gap.
  by_contra found
  obtain ⟨u, found⟩ := Option.ne_none_iff_exists'.mp found
  obtain ⟨more, rfl⟩ : c :: run <+: longer :=
    List.prefix_of_prefix_length_le (List.prefix_append _ _) hl (Nat.le_of_lt hn)
  have nonempty : more ≠ [] := by
    rintro rfl
    simp at hn
  obtain ⟨d, more, rfl⟩ := List.exists_cons_of_ne_nil nonempty
  have front : d :: more <+: rest := (List.prefix_append_right_inj _).mp hl
  obtain ⟨further, rfl⟩ := front
  have := (isGap_cases (stops d rfl)).2.2.2.2 _ (Dictionary.mem_of_findEntry_eq_some found)
  simp at this

/-- A printable token ends in front of a gap. -/
theorem Token.Printable.before (h : t.Printable) (stops : ∀ c ∈ rest.head?, isGap c) :
    t.lexeme.Before rest := by
  have text : String.ofList t.value.toList = t.value := String.ofList_toList
  cases h with
  | identifier type word plain =>
    obtain ⟨c, run, value, digit, start, longest⟩ := exists_cons_of_isWord word stops
    rw [value] at text
    simp only [Token.lexeme, Token.written, type, value]
    exact .identifier digit start longest (by rwa [text])
  | number type number =>
    simp only [Token.lexeme, Token.written, type]
    exact .number (number.numberRun stops)
  | string type body =>
    simp only [Token.lexeme, Token.written, type]
    exact .string (closesFirst_iff.mpr body)
  | spelled spelling =>
    have type : t.type ≠ .stringLiteral := by
      intro type
      rw [type] at spelling
      cases spelling
    simp only [Token.lexeme, Token.written, type, if_false]
    rcases spelling?_eq_some_iff.mp spelling with spelled | spelled
    · obtain ⟨c, run, value, digit, start, longest⟩ :=
        exists_cons_of_isWord (isWord_of_keyword spelled) stops
      rw [value] at text ⊢
      exact .keyword digit start longest (by rwa [text])
    · exact before_of_operator (by rwa [text]) stops

/-- What the lexer takes for a token is printable. -/
theorem Token.printable_of_before (h : t.lexeme.Before rest) : t.Printable := by
  have text : String.ofList t.value.toList = t.value := String.ofList_toList
  generalize hl : t.lexeme = lexeme at h
  cases h with
  | string h =>
    obtain ⟨type, value, -⟩ := Lexeme.mk.inj hl
    exact .string type (value ▸ closesFirst_iff.mp h)
  | number h =>
    obtain ⟨type, value, -⟩ := Lexeme.mk.inj hl
    refine .number type (value ▸ ?_)
    cases h with
    | whole nonempty digits => exact .whole nonempty digits.inside
    | fraction nonempty inside follows digits =>
      exact .fraction nonempty inside follows digits.inside
  | keyword _ _ _ spelled =>
    obtain ⟨type, value, -⟩ := Lexeme.mk.inj hl
    rw [← value, text, ← type] at spelled
    exact .spelled (spelling?_eq_some_iff.mpr (.inl spelled))
  | identifier _ start h spelled =>
    obtain ⟨type, value, -⟩ := Lexeme.mk.inj hl
    refine .identifier type ?_ (by rwa [← value, text] at spelled)
    rw [value]
    exact Bool.and_eq_true_iff.mpr
      ⟨start, List.all_eq_true.mpr fun d hd => h.inside d (List.mem_cons_of_mem _ hd)⟩
  | operator _ spelled =>
    obtain ⟨type, value, -⟩ := Lexeme.mk.inj hl
    rw [← value, text, ← type] at spelled
    exact .spelled (spelling?_eq_some_iff.mpr (.inr spelled))

end BlockLang
