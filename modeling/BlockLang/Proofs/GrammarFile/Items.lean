import BlockLang.Proofs.GrammarFile.Scans
import BlockLang.Proofs.Lexing.Printable

/-!
# Items of a grammar file

An item that was written is recognised where it stands, with all its characters, if a blank or
nothing follows. Where only blanks stand between the items of a list, and no item is recognised at a
blank, the matches in the list are the items in turn. Productions are recognised at the start of a
line only, so what a line goes on with does not matter.

## Main definitions

* `isName isStart`: the names whose first character is of some sort
* `literalRule left right entry`: a literal class as it is written
* `productionLine entry`: a production as it is written, on a line of its own

## Main results

* `matchesIn_listed`: the matches in a list are its items
* `wordAt_word`, `operatorAt_quoted`, `literalAt_rule`: written items are recognised
* `matchesFrom_productionLines`: the productions of some lines
-/

namespace BlockLang.Grammar

open Text

variable {α : Type} {c : Char} {run rest item : List Char} {isStart : Char → Bool}

/-! ## Classes of characters -/

theorem rangesApart_blank : [letterRanges, decimalRanges, digitSignRanges, numberSignRanges].all
    (rangesApart blankRanges) := by
  decide +kernel

/-- Blanks stand in no word. -/
theorem isWordChar_of_isBlank (h : isBlank c) : isWordChar c = false := by
  have apart := List.all_eq_true.mp rangesApart_blank
  have outside {ranges : List (Nat × Nat)}
      (hr : ranges ∈ [letterRanges, decimalRanges, digitSignRanges, numberSignRanges]) :
      inRanges ranges c.toNat = false :=
    inRanges_of_rangesApart (apart ranges hr) h
  have lowLine : c ≠ '_' := by
    rintro rfl
    cases h
  simp [isWordChar, isAlphanumeric, isLetter, isDigit, isDecimal, lowLine, outside]

/-- The first two ranges of letters are those of ASCII. -/
theorem inRanges_ascii {n : Nat} (h : 65 ≤ n ∧ n ≤ 90 ∨ 97 ≤ n ∧ n ≤ 122)
    (ranges : List (Nat × Nat)) : inRanges ((65, 90) :: (97, 122) :: ranges) n := by
  simp only [inRanges_cons, Bool.and_eq_true, Bool.or_eq_true, Bool.not_eq_true',
    decide_eq_false_iff_not, decide_eq_true_eq]
  omega

theorem isWordChar_of_isAlpha (h : c.isAlpha) : isWordChar c := by
  have bounds : 65 ≤ c.toNat ∧ c.toNat ≤ 90 ∨ 97 ≤ c.toNat ∧ c.toNat ≤ 122 := by
    rcases Bool.or_eq_true_iff.mp h with upper | lower
    · exact .inl (of_decide_eq_true upper)
    · obtain ⟨first, last⟩ := Bool.and_eq_true_iff.mp lower
      exact .inr ⟨of_decide_eq_true first, of_decide_eq_true last⟩
  have letter : isLetter c := inRanges_ascii bounds _
  simp [isWordChar, isAlphanumeric, letter]

theorem isWordChar_of_isNameStart (h : isNameStart c) : isWordChar c := by
  simp only [isNameStart, Bool.or_eq_true, beq_iff_eq] at h
  rcases h with letter | rfl
  · exact isWordChar_of_isAlpha letter
  · rfl

theorem isWordChar_of_isUpper (h : c.isUpper) : isWordChar c :=
  isWordChar_of_isAlpha (Bool.or_eq_true_iff.mpr (.inl h))

theorem isUpper_of_isBlank (h : isBlank c) : c.isUpper = false := by
  by_contra capital
  have := isWordChar_of_isUpper (Bool.of_not_eq_false capital)
  simp [isWordChar_of_isBlank h] at this

theorem isNameStart_of_isBlank (h : isBlank c) : isNameStart c = false := by
  by_contra start
  have := isWordChar_of_isNameStart (Bool.of_not_eq_false start)
  simp [isWordChar_of_isBlank h] at this

/-! ## Matches -/

section Matches

variable {recognise : Recogniser α} {previous : Option Char}

/-- What is taken already is not looked at. -/
theorem matchesFrom_taken (recognise : Recogniser α) (run cs : List Char) (previous : Option Char) :
    matchesFrom recognise run.length previous (run ++ cs) =
      matchesFrom recognise 0 (run.getLast?.or previous) cs := by
  induction run generalizing previous with
  | nil => simp
  | cons c run ih =>
    rw [List.length_cons, List.cons_append, matchesFrom, ih, List.getLast?_cons]
    cases run.getLast? <;> rfl

/-- A gap begins with a blank. -/
theorem Gap.stops (gap : Gap) (cs : List Char) : ∀ c ∈ (gap.chars ++ cs).head?, isBlank c := by
  obtain ⟨⟨run, blank⟩, nonempty⟩ := gap
  obtain ⟨d, more, rfl⟩ := List.exists_cons_of_ne_nil nonempty
  intro c hc
  exact blank c (Option.some.inj hc ▸ List.mem_cons_self)

/-- What is recognised is the first match, and the others stand behind it. -/
theorem matchesFrom_item {a : α} (h : recognise previous (item ++ cs) = some (a, item.length))
    (nonempty : item ≠ []) :
    matchesFrom recognise 0 previous (item ++ cs) =
      a :: matchesFrom recognise 0 item.getLast? cs := by
  obtain ⟨c, run, rfl⟩ := List.exists_cons_of_ne_nil nonempty
  simp only [List.cons_append] at h ⊢
  simp only [matchesFrom, h, List.length_cons, Nat.add_sub_cancel, matchesFrom_taken]
  rw [List.getLast?_cons]
  cases run.getLast? <;> rfl

/-- Nothing is recognised at a blank. -/
def NotAtBlanks (recognise : Recogniser α) : Prop :=
  ∀ c, isBlank c → ∀ previous cs, recognise previous (c :: cs) = none

theorem matchesFrom_blanks (h : NotAtBlanks recognise) (blanks : Blanks) (cs : List Char)
    (previous : Option Char) :
    ∃ last, matchesFrom recognise 0 previous (blanks.chars ++ cs) =
      matchesFrom recognise 0 last cs := by
  obtain ⟨run, blank⟩ := blanks
  induction run generalizing previous with
  | nil => exact ⟨previous, rfl⟩
  | cons c run ih =>
    obtain ⟨last, skipped⟩ := ih (some c) fun d hd => blank d (List.mem_cons_of_mem c hd)
    refine ⟨last, ?_⟩
    simp only [List.cons_append, ← skipped, matchesFrom, h c (blank c List.mem_cons_self)]

/-- An item is written as some text, and recognised where the text stands and a blank or nothing
follows. -/
def Recognises (recognise : Recogniser α) (written : α → List Char) (a : α) : Prop :=
  written a ≠ [] ∧ ∀ previous rest, (∀ c ∈ rest.head?, isBlank c) →
    recognise previous (written a ++ rest) = some (a, (written a).length)

/-- The matches in joined items are the items, whatever blanks stand around. -/
theorem matchesFrom_joined {written : α → List Char} {items : List α} (h : NotAtBlanks recognise)
    (reads : ∀ a ∈ items, Recognises recognise written a) (gap : Nat → Gap) (back : Blanks)
    (previous : Option Char) :
    matchesFrom recognise 0 previous (joined gap (items.map written) ++ back.chars) = items := by
  have padding (p : Option Char) : matchesFrom recognise 0 p back.chars = [] := by
    obtain ⟨last, skipped⟩ := matchesFrom_blanks h back [] p
    rw [List.append_nil] at skipped
    rw [skipped]
    rfl
  have stops : ∀ c ∈ back.chars.head?, isBlank c := fun c hc => back.blank c (List.mem_of_head? hc)
  -- Induction on the items: a gap begins behind each but the last, and other blanks behind that.
  induction items generalizing gap previous with
  | nil => exact padding previous
  | cons a items ih =>
    obtain ⟨nonempty, recognised⟩ := reads a List.mem_cons_self
    cases items with
    | nil =>
      simp only [List.map_cons, List.map_nil, joined]
      rw [matchesFrom_item (recognised previous back.chars stops) nonempty, padding]
    | cons b items =>
      have later := ih (fun b hb => reads b (List.mem_cons_of_mem a hb)) fun n => gap (n + 1)
      simp only [List.map_cons, joined, List.append_assoc] at later ⊢
      rw [matchesFrom_item (recognised previous _ ((gap 0).stops _)) nonempty]
      obtain ⟨last, skipped⟩ := matchesFrom_blanks h (gap 0).toBlanks
        (joined (fun n => gap (n + 1)) (written b :: items.map written) ++ back.chars)
        (written a).getLast?
      rw [skipped, later]

/-- The matches in a list are its items. -/
theorem matchesIn_listed {written : α → List Char} {items : List α} (h : NotAtBlanks recognise)
    (reads : ∀ a ∈ items, Recognises recognise written a) (spacing : Spacing) :
    matchesIn recognise (spacing.listed (items.map written)) = items := by
  obtain ⟨last, skipped⟩ := matchesFrom_blanks h spacing.front
    (joined spacing.gap (items.map written) ++ spacing.back.chars) none
  rw [matchesIn, Spacing.listed, skipped, matchesFrom_joined h reads]

end Matches

/-! ## Names -/

/-- A character of some sort, and word characters behind it. -/
def isName (isStart : Char → Bool) : List Char → Bool
  | [] => false
  | c :: run => isStart c && run.all isWordChar

/-- A name is read as far as it goes. -/
theorem nameAt_append {name : List Char} (h : isName isStart name)
    (stops : ∀ c ∈ rest.head?, isWordChar c = false) :
    nameAt isStart (name ++ rest) = some (name, rest) := by
  cases name with
  | nil => cases h
  | cons c run =>
    obtain ⟨start, inside⟩ := Bool.and_eq_true_iff.mp h
    have longest : LongestRun isWordChar run rest := ⟨List.all_eq_true.mp inside, stops⟩
    have others : (run ++ rest).dropWhile isWordChar = rest := by
      have := List.takeWhile_append_dropWhile (p := isWordChar) (l := run ++ rest)
      rw [longest.takeWhile_eq] at this
      exact List.append_cancel_left this
    simp [nameAt, start, longest.takeWhile_eq, others]

/-- A name stops in front of blanks and a mark. -/
theorem Blanks.stops (blanks : Blanks) {mark : Char} (hm : isWordChar mark = false)
    (cs : List Char) : ∀ c ∈ (blanks.chars ++ mark :: cs).head?, isWordChar c = false := by
  obtain ⟨run, blank⟩ := blanks
  intro c hc
  cases run with
  | nil => exact Option.some.inj hc ▸ hm
  | cons d run => exact isWordChar_of_isBlank (blank c (Option.some.inj hc ▸ List.mem_cons_self))

theorem afterBlanksAnd_append (blanks : Blanks) {mark : Char} (hm : isBlank mark = false)
    (cs : List Char) : afterBlanksAnd mark (blanks.chars ++ mark :: cs) = some cs := by
  rw [afterBlanksAnd, List.dropWhile_append_of_pos blanks.blank,
    List.dropWhile_cons_of_neg (by simp [hm])]
  simp

/-! ## Keywords -/

theorem notAtBlanks_wordAt : NotAtBlanks wordAt := by
  intro c blank previous cs
  simp [wordAt, nameAt, isNameStart_of_isBlank blank]

/-- A word is recognised where it stands. -/
theorem wordAt_word {k : String} (h : isName isNameStart k.toList) :
    Recognises wordAt String.toList k := by
  constructor
  · intro empty
    simp [empty, isName] at h
  · intro previous rest stops
    have := nameAt_append h fun c hc => isWordChar_of_isBlank (stops c hc)
    simp [wordAt, this]

/-! ## Operators -/

/-- A text in double quotes. -/
def inQuotes (s : String) : List Char := '"' :: (s.toList ++ ['"'])

theorem notAtBlanks_operatorAt : NotAtBlanks operatorAt := by
  intro c blank previous cs
  have other : c ≠ '"' := by
    rintro rfl
    cases blank
  simp [operatorAt, other]

/-- What is recognised as an operator is a text in double quotes. -/
theorem operatorAt_eq_some_iff {o : String} {n : Nat} {previous : Option Char} {cs : List Char} :
    operatorAt previous cs = some (o, n) ↔
      o ≠ "" ∧ '"' ∉ o.toList ∧ n = (inQuotes o).length ∧ inQuotes o <+: cs := by
  constructor
  · intro h
    unfold operatorAt at h
    split at h
    · next rest =>
      rw [Option.ite_none_left_eq_some] at h
      obtain ⟨filled, h⟩ := h
      split at h
      · next more behind =>
        obtain ⟨rfl, rfl⟩ := Prod.mk.inj (Option.some.inj h)
        refine ⟨by simpa using filled, ?_, by simp [inQuotes], more, ?_⟩
        · rw [String.toList_ofList]
          intro quote
          simpa using List.mem_takeWhile_imp quote
        · rw [inQuotes, String.toList_ofList, List.cons_append, List.append_assoc,
            List.singleton_append, ← behind, takeWhile_append_drop]
      · cases h
    · cases h
  · rintro ⟨nonempty, hq, rfl, rest, rfl⟩
    have longest : LongestRun (· != '"') o.toList ('"' :: rest) := by
      refine ⟨fun c hc => ?_, by simp⟩
      simpa using ne_of_mem_of_not_mem hc hq
    have filled : o.toList ≠ [] := by simpa using nonempty
    simp [operatorAt, inQuotes, longest.takeWhile_eq, filled]

/-- A quoted operator is recognised where it stands. -/
theorem operatorAt_quoted {o : String} (nonempty : o ≠ "") (hq : '"' ∉ o.toList) :
    Recognises operatorAt inQuotes o :=
  ⟨by simp [inQuotes], fun _ rest _ =>
    operatorAt_eq_some_iff.mpr ⟨nonempty, hq, rfl, List.prefix_append _ rest⟩⟩

/-! ## Literal classes -/

/-- A literal class as it is written, with blanks before and behind the equals sign. -/
def literalRule (left right : String × String → Blanks) (entry : String × String) : List Char :=
  entry.1.toList ++ (left entry).chars ++
    '=' :: ((right entry).chars ++ '/' :: (entry.2.toList ++ ['/']))

theorem notAtBlanks_literalAt : NotAtBlanks literalAt := by
  intro c blank previous cs
  simp [literalAt, nameAt, isNameStart_of_isBlank blank]

/-- What may stand between the slashes of a literal class. -/
def isPattern (cs : List Char) : Bool := isQuotedRun '/' cs && '\n' ∉ cs

theorem patternBody_append (h : isPattern run) (rest : List Char) :
    patternBody (run ++ '/' :: rest) = run := by
  simp only [isPattern, Bool.and_eq_true, decide_eq_true_eq] at h
  obtain ⟨quoted, line⟩ := h
  fun_induction isQuotedRun '/' run with
  | case1 => simp [patternBody]
  | case2 c run ih =>
    simp only [List.mem_cons, not_or] at line
    simp [patternBody, ih quoted line.2.2, Ne.symm line.2.1]
  | case3 c run other ih =>
    simp only [Bool.and_eq_true, bne_iff_ne] at quoted
    simp only [List.mem_cons, not_or] at line
    obtain ⟨⟨slash, backslash⟩, quoted⟩ := quoted
    -- A backslash alone would be read with the character behind it.
    rw [List.cons_append, patternBody.eq_3 _ _ fun _ _ h _ => backslash h]
    simp [slash, backslash, Ne.symm line.1, ih quoted line.2]

/-- A literal class is recognised where it stands. -/
theorem literalAt_rule (left right : String × String → Blanks) {entry : String × String}
    (hn : isName isNameStart entry.1.toList) (hb : isPattern entry.2.toList) :
    Recognises literalAt (literalRule left right) entry := by
  refine ⟨by simp [literalRule], fun previous rest _ => ?_⟩
  have equals : isBlank '=' = false := rfl
  have slash : isBlank '/' = false := rfl
  have stop : isWordChar '=' = false := rfl
  have named := nameAt_append hn ((left entry).stops stop
    ((right entry).chars ++ '/' :: (entry.2.toList ++ '/' :: rest)))
  simp [literalAt, literalRule, named, afterBlanksAnd_append (left entry) equals,
    afterBlanksAnd_append (right entry) slash, patternBody_append hb]
  omega

/-! ## Productions -/

/-- A production as it is written, on a line of its own. -/
def productionLine (entry : String × String) : List Char :=
  entry.1.toList ++ [' ', '='] ++ ' ' :: (entry.2.toList ++ [' ', ';', '\n'])

section Productions

variable {previous : Option Char} {d : Char}

/-- A production is recognised at the start of a line. -/
theorem productionAt_name {name : String} (h : isName Char.isUpper name.toList) (rest : List Char) :
    productionAt (some '\n') (name.toList ++ [' ', '='] ++ rest) =
      some (name, (name.toList ++ [' ', '=']).length) := by
  have space : isBlank ' ' := rfl
  have equals : isBlank '=' = false := rfl
  have stop : isWordChar ' ' = false := isWordChar_of_isBlank space
  have named : nameAt Char.isUpper (name.toList ++ ' ' :: '=' :: rest) =
      some (name.toList, ' ' :: '=' :: rest) := nameAt_append h (by simp [stop])
  have equalled := afterBlanksAnd_append ⟨[' '], by simpa using space⟩ equals rest
  -- A name does not begin with a blank.
  have front : (name.toList ++ ' ' :: '=' :: rest).dropWhile isBlank =
      name.toList ++ ' ' :: '=' :: rest := by
    cases text : name.toList with
    | nil => simp [text, isName] at h
    | cons c run =>
      have start : isWordChar c := by
        rw [text] at h
        exact isWordChar_of_isUpper (Bool.and_eq_true_iff.mp h).1
      rw [List.cons_append, List.dropWhile_cons_of_neg]
      intro blank
      simp [isWordChar_of_isBlank blank] at start
  simp only [List.singleton_append] at equalled
  simp [productionAt, front, named, equalled]
  omega

/-- Inside a line no production begins. -/
theorem matchesFrom_restOfLine (hp : previous.getD '\n' ≠ '\n') (line : '\n' ∉ run)
    (cs : List Char) :
    matchesFrom productionAt 0 previous (run ++ '\n' :: cs) =
      matchesFrom productionAt 0 (some '\n') cs := by
  induction run generalizing previous with
  | nil => simp [matchesFrom, productionAt, hp]
  | cons c run ih =>
    simp only [List.mem_cons, not_or] at line
    have later : matchesFrom productionAt 0 (some c) (run ++ '\n' :: cs) =
        matchesFrom productionAt 0 (some '\n') cs := ih (Ne.symm line.1) line.2
    simp [matchesFrom, productionAt, hp, later]

/-- The productions of some lines. -/
theorem matchesFrom_productionLines {entries : List (String × String)}
    (names : ∀ entry ∈ entries, isName Char.isUpper entry.1.toList)
    (lines : ∀ entry ∈ entries, '\n' ∉ entry.2.toList) :
    matchesFrom productionAt 0 (some '\n') (entries.flatMap productionLine) =
      entries.map Prod.fst := by
  induction entries with
  | nil => rfl
  | cons entry entries ih =>
    have later := ih (fun e he => names e (List.mem_cons_of_mem entry he))
      fun e he => lines e (List.mem_cons_of_mem entry he)
    have name := names entry List.mem_cons_self
    have line : '\n' ∉ ' ' :: (entry.2.toList ++ [' ', ';']) := by
      simpa using lines entry List.mem_cons_self
    -- A production is taken up to its equals sign, and the rest of its line is passed.
    have split : productionLine entry ++ entries.flatMap productionLine =
        entry.1.toList ++ [' ', '='] ++ (' ' :: (entry.2.toList ++ [' ', ';']) ++
          '\n' :: entries.flatMap productionLine) := by
      simp [productionLine]
    rw [List.flatMap_cons, split, matchesFrom_item (productionAt_name name _) (by simp),
      List.getLast?_append, matchesFrom_restOfLine (by simp) line, later, List.map_cons]

/-- No production is recognised at a character that is neither blank nor a capital letter, or at
blanks and other characters before it. -/
theorem productionAt_eq_none (h : ∀ c ∈ run, c.isUpper = false) (hd : isBlank d = false)
    (capital : d.isUpper = false) (cs : List Char) (previous : Option Char) :
    productionAt previous (run ++ d :: cs) = none := by
  have front : ∃ e more, (run ++ d :: cs).dropWhile isBlank = e :: more ∧ e.isUpper = false := by
    induction run with
    | nil => exact ⟨d, cs, List.dropWhile_cons_of_neg (by simp [hd]), capital⟩
    | cons c run ih =>
      by_cases blank : isBlank c
      · rw [List.cons_append, List.dropWhile_cons_of_pos blank]
        exact ih fun e he => h e (List.mem_cons_of_mem c he)
      · exact ⟨c, run ++ d :: cs, List.dropWhile_cons_of_neg blank, h c List.mem_cons_self⟩
  obtain ⟨e, more, front, small⟩ := front
  simp [productionAt, front, nameAt, small]

/-- Where no capital letter stands no production begins. -/
theorem matchesFrom_withoutCapitals (h : ∀ c ∈ run, c.isUpper = false) (hd : isBlank d = false)
    (capital : d.isUpper = false) (cs : List Char) (previous : Option Char) :
    matchesFrom productionAt 0 previous (run ++ d :: cs) =
      matchesFrom productionAt 0 (some d) cs := by
  induction run generalizing previous with
  | nil =>
    have := productionAt_eq_none h hd capital cs previous
    simp only [List.nil_append] at this ⊢
    simp only [matchesFrom, this]
  | cons c run ih =>
    have := productionAt_eq_none h hd capital cs previous
    rw [← ih (fun e he => h e (List.mem_cons_of_mem c he)) (some c)]
    simp only [List.cons_append] at this ⊢
    simp only [matchesFrom, this]

end Productions

end BlockLang.Grammar
