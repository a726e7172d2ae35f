import BlockLang.Proofs.GrammarFile.OperatorNames
import BlockLang.Proofs.GrammarFile.Printing
import BlockLang.Proofs.GrammarFile.Spans

/-!
# Quoted operators

The operators of a grammar file are looked at twice. The walk that finds the end of their block
takes comments and quoted runs as they come, so that neither counts inside the other. The reader
leaves out all line comments first, and only then does it look for double quotes. Where two hyphens
stand in an operator, the reader takes them for a comment, and so it never reads such an operator.
Apart from that both find the same operators, if no run in double quotes is empty, and none in
slashes has a double quote or two hyphens in it.

## Main definitions

* `QuotedRun`: a mark and what stands between it and the closing one
* `closingRuns? depth i cs`: the walk that finds the end of a body, with the quoted runs it meets
* `quotedRuns marker cs`: the quoted runs in the first block of a marker
* `Meets body runs`: a text with the quoted runs in it
* `ReadsOperators operators runs`: how operators that were read compare with quoted runs

## Main results

* `closing?_eq_map_closingRuns?`: the walk is that of `closing?`
* `meets_section`: the quoted runs of a section
* `not_infix_withoutLineComments`: without line comments there are no two hyphens
* `matchesIn_operatorAt_of_meets`: the operators that are read of a body
* `operators_compare_with_quoted_runs`: how the operators of a file compare with its quoted runs
-/

namespace BlockLang.Grammar

open Text

/-! ## Quoted runs -/

/-- A quoted run: the mark that it is set in, and what stands between. -/
structure QuotedRun where
  mark : Char
  content : List Char
  deriving DecidableEq, Repr

namespace QuotedRun

/-- The run has two hyphens in it. -/
def HasDashes (run : QuotedRun) : Prop := ['-', '-'] <:+: run.content

/-- The operator that is set in double quotes, if there is something between them. -/
def operator? (run : QuotedRun) : Option String :=
  if run.mark = '"' ∧ run.content ≠ [] then some (String.ofList run.content) else none

/-- The run does not put off a reader of double quotes: there is something between its double
quotes, or neither a double quote nor a comment between its slashes. -/
structure Settled (run : QuotedRun) : Prop where
  filled : run.mark = '"' → run.content ≠ []
  quoteless : run.mark = '/' → '"' ∉ run.content
  dashless : run.mark = '/' → ¬run.HasDashes

end QuotedRun

/-- The place of the brace that closes a body, as `closing?` finds it, and the quoted runs that are
jumped over on the way. -/
def closingRuns? (depth i : Nat) : List Char → Option (Nat × List QuotedRun)
  | [] => none
  | c :: cs =>
    if c = '-' ∧ cs.head? = some '-' then
      closingRuns? depth (i + 1 + (cs.takeWhile (· ≠ '\n')).length)
        (cs.drop (cs.takeWhile (· ≠ '\n')).length)
    else if c = '"' ∨ c = '/' then
      (closingRuns? depth (i + 1 + quotedLength c cs) (cs.drop (quotedLength c cs))).map
        fun found => (found.1, ⟨c, cs.take (quotedLength c cs - 1)⟩ :: found.2)
    else if c = '{' then closingRuns? (depth + 1) (i + 1) cs
    else if c = '}' then
      match depth with
      | 0 => some (i, [])
      | depth + 1 => closingRuns? depth (i + 1) cs
    else closingRuns? depth (i + 1) cs
termination_by cs => cs.length
decreasing_by all_goals simp only [List.length_drop, List.length_cons]; omega

/-- The quoted runs in the first block of a marker, if there is one. -/
def quotedRuns (marker : String) (cs : List Char) : List QuotedRun :=
  match findOpening? marker.toList cs with
  | none => []
  | some (before, rest) => ((closingRuns? 0 before.length rest).map Prod.snd).getD []

/-- A text is made up of comments, quoted runs and other characters, and these are its quoted runs.
Two hyphens are always a comment, and braces are characters like others. -/
inductive Meets : List Char → List QuotedRun → Prop
  | nil : Meets [] []
  | comment {run body : List Char} {runs : List QuotedRun} (oneLine : '\n' ∉ run)
      (h : Meets ('\n' :: body) runs) : Meets ('-' :: '-' :: (run ++ '\n' :: body)) runs
  | quoted {mark : Char} {run body : List Char} {runs : List QuotedRun}
      (hm : mark = '"' ∨ mark = '/') (hr : isQuotedRun mark run) (h : Meets body runs) :
      Meets (mark :: (run ++ mark :: body)) (⟨mark, run⟩ :: runs)
  | other {c : Char} {body : List Char} {runs : List QuotedRun} (hc : c ∉ ['"', '/'])
      (apart : ¬(c = '-' ∧ body.head? = some '-')) (h : Meets body runs) : Meets (c :: body) runs

variable {c mark : Char} {cs body rest run : List Char} {depth i j : Nat} {marker o : String}
  {runs : List QuotedRun} {operators : List String} {previous : Option Char}

/-! ## The walk over a body -/

/-- The walk is that of `closing?`. -/
theorem closing?_eq_map_closingRuns? (depth i : Nat) (cs : List Char) :
    closing? depth i cs = (closingRuns? depth i cs).map Prod.fst := by
  fun_induction closingRuns? depth i cs with
  | case1 =>
    rw [closing?.eq_def]
    rfl
  | case2 depth i c cs sign ih =>
    rw [closing?.eq_def, ← ih]
    simp only [sign, and_self, if_true]
  | case3 depth i mark cs sign hm ih =>
    rw [closing?.eq_def, Option.map_map]
    simp only [sign, hm, if_true, if_false, ih]
    rfl
  | case4 depth i cs _ _ ih => rw [closing?_opened, ih]
  | case5 i cs =>
    rw [closing?.eq_def]
    simp
  | case6 i cs depth _ _ _ ih => rw [closing?_closed, ih]
  | case7 depth i c cs sign mark opened closed ih =>
    rw [closing?.eq_def]
    simp only [sign, mark, opened, closed, if_false, ih]

/-- Where the walk stops, it has met the quoted runs of what it got behind. -/
theorem meets_of_closingRuns? (h : closingRuns? depth i cs = some (j, runs)) :
    ∃ body rest, cs = body ++ '}' :: rest ∧ j = i + body.length ∧ Meets body runs := by
  -- Induction on the walk. Runs are the same at every depth, so braces are steps like others.
  fun_induction closingRuns? depth i cs generalizing j runs with
  | case1 => cases h
  | case2 depth i c cs sign ih =>
    obtain ⟨body, rest, text, rfl, meets⟩ := ih h
    obtain ⟨rfl, hyphen⟩ := sign
    obtain ⟨run, more, hr, oneLine, rfl⟩ := exists_comment hyphen text
    have split := takeWhile_append_drop (· ≠ '\n') cs
    rw [text, hr] at split
    refine ⟨'-' :: '-' :: (run ++ '\n' :: more), rest, ?_, ?_, .comment oneLine meets⟩
    · rw [← split]
      simp
    · simp only [hr, List.length_append, List.length_cons]
      omega
  | case3 depth i mark cs sign hm ih =>
    obtain ⟨⟨stop, behind⟩, found, same⟩ := Option.map_eq_some_iff.mp h
    obtain ⟨rfl, rfl⟩ := Prod.mk.inj same
    obtain ⟨body, rest, text, rfl, meets⟩ := ih found
    obtain ⟨run, split, quoted, length⟩ := exists_quoted text
    have content : cs.take (quotedLength mark cs - 1) = run := by
      rw [length, split, Nat.add_sub_cancel, List.take_left]
    rw [content]
    refine ⟨mark :: (run ++ mark :: body), rest, ?_, ?_, .quoted hm quoted meets⟩
    · rw [split]
      simp
    · simp only [List.length_append, List.length_cons, length]
      omega
  | case4 depth i cs _ _ ih =>
    obtain ⟨body, rest, rfl, rfl, meets⟩ := ih h
    refine ⟨'{' :: body, rest, rfl, ?_, .other (by decide) (by simp) meets⟩
    simp only [List.length_cons]
    omega
  | case5 i cs =>
    obtain ⟨rfl, rfl⟩ := Prod.mk.inj (Option.some.inj h)
    exact ⟨[], cs, rfl, rfl, .nil⟩
  | case6 i cs depth _ _ _ ih =>
    obtain ⟨body, rest, rfl, rfl, meets⟩ := ih h
    refine ⟨'}' :: body, rest, rfl, ?_, .other (by decide) (by simp) meets⟩
    simp only [List.length_cons]
    omega
  | case7 depth i c cs sign mark opened closed ih =>
    obtain ⟨body, rest, rfl, rfl, meets⟩ := ih h
    refine ⟨c :: body, rest, rfl, ?_, .other (by simpa using mark) (fun hyphens => sign ?_) meets⟩
    · simp only [List.length_cons]
      omega
    · refine ⟨hyphens.1, ?_⟩
      rw [List.head?_append, hyphens.2, Option.some_or]

/-- The quoted runs of a section. -/
theorem meets_section (marker : String) (cs : List Char) :
    Meets (GrammarFile.section? marker cs) (quotedRuns marker cs) := by
  unfold GrammarFile.section? block? quotedRuns
  cases findOpening? marker.toList cs with
  | none => exact .nil
  | some opening =>
    obtain ⟨before, rest⟩ := opening
    have stops := (closing?_eq_map_closingRuns? 0 before.length rest).symm.trans
      (closing?_eq_map_splitBody 0 before.length rest)
    simp only [Option.map_map]
    cases met : closingRuns? 0 before.length rest with
    | none =>
      rw [met, Option.map_none] at stops
      rw [Option.map_eq_none_iff.mp stops.symm]
      exact .nil
    | some found =>
      obtain ⟨stop, runs⟩ := found
      rw [met, Option.map_some] at stops
      obtain ⟨⟨inner, after⟩, split, same⟩ := Option.map_eq_some_iff.mp stops.symm
      obtain ⟨body, behind, text, place, meets⟩ := meets_of_closingRuns? met
      -- Both walks stop at the same place, so they got behind the same body.
      have length : inner.length = body.length := by
        simp only at same
        omega
      obtain ⟨rfl, -⟩ := List.append_inj ((splitBody_append split).trans text) length
      rw [split]
      exact meets

/-! ## Comments -/

/-- A line comment is left out up to the line feed behind it. -/
theorem withoutLineComments_comment (oneLine : '\n' ∉ run) (cs : List Char) :
    withoutLineComments ('-' :: '-' :: (run ++ '\n' :: cs)) = withoutLineComments ('\n' :: cs) := by
  have inside : dropLineComments true (run ++ '\n' :: cs) = '\n' :: dropLineComments false cs := by
    induction run with
    | nil => simp [dropLineComments]
    | cons c run ih =>
      rw [List.mem_cons, not_or] at oneLine
      simp [dropLineComments, Ne.symm oneLine.1, ih oneLine.2]
  have opened : withoutLineComments ('-' :: '-' :: (run ++ '\n' :: cs)) =
      dropLineComments true (run ++ '\n' :: cs) := by
    simp [withoutLineComments, dropLineComments]
  rw [opened, inside, withoutLineComments, dropLineComments_cons (by simp)]

/-- A run without two hyphens is kept between its marks. -/
theorem withoutLineComments_quoted (hm : mark ≠ '-') (apart : ¬['-', '-'] <:+: run)
    (cs : List Char) : withoutLineComments (mark :: (run ++ mark :: cs)) =
      mark :: (run ++ mark :: withoutLineComments cs) := by
  have passed := mindsOnly_lineComments.passes_between apart hm hm cs
  simpa [lineComments, withoutLineComments, List.foldr_cons_eq_append] using passed

/-- Without line comments, a text begins with a hyphen only if it does with them. -/
theorem head?_of_dropLineComments (h : (dropLineComments false cs).head? = some '-') :
    cs.head? = some '-' := by
  cases cs with
  | nil => cases h
  | cons c cs =>
    by_cases sign : c = '-' ∧ cs.head? = some '-'
    · rw [sign.1, List.head?_cons]
    · rwa [dropLineComments_cons sign] at h

/-- Without line comments there are no two hyphens. -/
theorem not_infix_withoutLineComments (cs : List Char) :
    ¬['-', '-'] <:+: withoutLineComments cs := by
  suffices ∀ inside, ¬['-', '-'] <:+: dropLineComments inside cs from this false
  -- Induction on the text: a hyphen is kept only if what is kept next is none.
  induction cs with
  | nil =>
    intro inside
    cases inside <;> simp [dropLineComments]
  | cons c cs ih =>
    rintro (_ | _)
    · by_cases sign : c = '-' ∧ cs.head? = some '-'
      · simpa [dropLineComments, sign] using ih true
      · rw [dropLineComments_cons sign, List.infix_cons_iff, not_or]
        refine ⟨fun front => sign ?_, ih false⟩
        obtain ⟨rfl, next⟩ := List.cons_prefix_cons.mp front
        obtain ⟨more, next⟩ := next
        exact ⟨rfl, head?_of_dropLineComments (by rw [← next]; rfl)⟩
    · by_cases hc : c = '\n'
      · subst hc
        simpa [dropLineComments, List.infix_cons_iff] using ih false
      · simpa [dropLineComments, hc] using ih true

/-! ## Operators -/

/-- What is recognised somewhere in a text is recognised in front of a rest of it. -/
theorem exists_suffix_of_mem_matchesFrom {α : Type} {recognise : Recogniser α} {a : α} {skip : Nat}
    (h : a ∈ matchesFrom recognise skip previous cs) :
    ∃ rest before length, rest <:+ cs ∧ recognise before rest = some (a, length) := by
  induction cs generalizing skip previous with
  | nil => simp [matchesFrom] at h
  | cons c cs ih =>
    have behind {skip : Nat} (later : a ∈ matchesFrom recognise skip (some c) cs) :
        ∃ rest before length, rest <:+ c :: cs ∧ recognise before rest = some (a, length) := by
      obtain ⟨rest, before, length, suffix, recognised⟩ := ih later
      exact ⟨rest, before, length, suffix.trans (List.suffix_cons c cs), recognised⟩
    cases skip with
    | succ skip => exact behind h
    | zero =>
      rw [matchesFrom] at h
      split at h
      · next first length recognised =>
        rcases List.mem_cons.mp h with rfl | later
        · exact ⟨c :: cs, previous, length, List.suffix_refl _, recognised⟩
        · exact behind later
      · exact behind h

/-- An operator that is read without line comments has no two hyphens. -/
theorem not_infix_of_mem_matchesIn (h : o ∈ matchesIn operatorAt (withoutLineComments cs)) :
    ¬['-', '-'] <:+: o.toList := by
  intro dashes
  obtain ⟨rest, before, length, suffix, recognised⟩ := exists_suffix_of_mem_matchesFrom h
  obtain ⟨-, -, -, front⟩ := operatorAt_eq_some_iff.mp recognised
  have inside : o.toList <:+: inQuotes o := ⟨['"'], ['"'], by simp [inQuotes]⟩
  exact not_infix_withoutLineComments cs
    (dashes.trans (inside.trans (front.isInfix.trans suffix.isInfix)))

/-- What stands before a text makes no difference to the operators in it. -/
theorem matchesFrom_operatorAt (previous : Option Char) (cs : List Char) :
    matchesFrom operatorAt 0 previous cs = matchesIn operatorAt cs := by
  cases cs <;> rfl

/-- A stretch without double quotes has no part in the operators of a text. -/
theorem matchesIn_operatorAt_append (h : '"' ∉ run) (cs : List Char) :
    matchesIn operatorAt (run ++ cs) = matchesIn operatorAt cs := by
  induction run with
  | nil => rfl
  | cons c run ih =>
    rw [List.mem_cons, not_or] at h
    have other : operatorAt none (c :: (run ++ cs)) = none := by simp [operatorAt, Ne.symm h.1]
    rw [List.cons_append, matchesIn, matchesFrom, other, ← ih h.2]
    exact matchesFrom_operatorAt (some c) (run ++ cs)

/-- An operator in double quotes is read, and then the operators behind it. -/
theorem matchesIn_operatorAt_quoted (nonempty : o ≠ "") (hq : '"' ∉ o.toList) (cs : List Char) :
    matchesIn operatorAt (inQuotes o ++ cs) = o :: matchesIn operatorAt cs := by
  have recognised : operatorAt none (inQuotes o ++ cs) = some (o, (inQuotes o).length) :=
    operatorAt_eq_some_iff.mpr ⟨nonempty, hq, rfl, List.prefix_append _ cs⟩
  rw [matchesIn, matchesFrom_item recognised (by simp [inQuotes]), matchesFrom_operatorAt]

/-- A quoted run without a backslash does not have its own mark in it. -/
theorem notMem_of_isQuotedRun (h : isQuotedRun mark run) (hb : '\\' ∉ run) : mark ∉ run := by
  fun_induction isQuotedRun mark run with
  | case1 => exact List.not_mem_nil
  | case2 c run ih => simp at hb
  | case3 c run other ih =>
    simp only [Bool.and_eq_true, bne_iff_ne] at h
    rw [List.mem_cons, not_or] at hb ⊢
    exact ⟨Ne.symm h.1.1, ih h.2 hb.2⟩

/-- Up to its first double quote, a quoted run with a backslash has one as well. -/
theorem exists_front_of_escaped (h : isQuotedRun '"' run) (hb : '\\' ∈ run) (cs : List Char) :
    ∃ front rest, run ++ '"' :: cs = front ++ '"' :: rest ∧ '"' ∉ front ∧ '\\' ∈ front := by
  fun_induction isQuotedRun '"' run with
  | case1 => cases hb
  | case2 c run ih =>
    have quote : '"' ∈ c :: run ++ '"' :: cs := by simp
    obtain ⟨front, rest, split, free⟩ := List.eq_append_cons_of_mem quote
    refine ⟨'\\' :: front, rest, ?_, by simp [free], List.mem_cons_self⟩
    rw [List.cons_append, split]
    rfl
  | case3 c run other ih =>
    simp only [Bool.and_eq_true, bne_iff_ne] at h
    rw [List.mem_cons] at hb
    obtain ⟨front, rest, split, free, escaped⟩ := ih h.2 (hb.resolve_left (Ne.symm h.1.2))
    refine ⟨c :: front, rest, ?_, ?_, List.mem_cons_of_mem c escaped⟩
    · rw [List.cons_append, split]
      rfl
    · rw [List.mem_cons, not_or]
      exact ⟨Ne.symm h.1.1, free⟩

/-- In front of a quoted run with a backslash, an operator with a backslash is read. -/
theorem exists_escaped_mem_matchesIn (h : isQuotedRun '"' run) (hb : '\\' ∈ run)
    (cs : List Char) : ∃ o ∈ matchesIn operatorAt ('"' :: (run ++ '"' :: cs)), '\\' ∈ o.toList := by
  obtain ⟨front, rest, split, free, escaped⟩ := exists_front_of_escaped h hb cs
  have nonempty : String.ofList front ≠ "" := by
    intro empty
    rw [show front = [] by simpa using empty] at escaped
    cases escaped
  have read := matchesIn_operatorAt_quoted nonempty (by rwa [String.toList_ofList]) rest
  have text : inQuotes (String.ofList front) ++ rest = '"' :: (run ++ '"' :: cs) := by
    rw [split, inQuotes, String.toList_ofList]
    simp
  rw [← text, read]
  exact ⟨_, List.mem_cons_self, by rwa [String.toList_ofList]⟩

/-- A run in double quotes is read as its operator, and then the operators behind it, unless one
that is read has a backslash. -/
theorem matchesIn_operatorAt_doubleQuoted (hr : isQuotedRun '"' run) (filled : run ≠ [])
    (plain : ∀ o ∈ matchesIn operatorAt ('"' :: (run ++ '"' :: cs)), '\\' ∉ o.toList) :
    matchesIn operatorAt ('"' :: (run ++ '"' :: cs)) =
      String.ofList run :: matchesIn operatorAt cs := by
  have unescaped : '\\' ∉ run := by
    intro hb
    obtain ⟨o, read, escaped⟩ := exists_escaped_mem_matchesIn hr hb cs
    exact plain o read escaped
  have text : inQuotes (String.ofList run) ++ cs = '"' :: (run ++ '"' :: cs) := by
    rw [inQuotes, String.toList_ofList]
    simp
  rw [← text]
  refine matchesIn_operatorAt_quoted (by simpa using filled) ?_ cs
  rw [String.toList_ofList]
  exact notMem_of_isQuotedRun hr unescaped

/-- A run in slashes without double quotes is not read. -/
theorem matchesIn_operatorAt_slashed (free : '"' ∉ run) (cs : List Char) :
    matchesIn operatorAt ('/' :: (run ++ '/' :: cs)) = matchesIn operatorAt cs := by
  have text : '/' :: (run ++ '/' :: cs) = '/' :: (run ++ ['/']) ++ cs := by simp
  rw [text]
  exact matchesIn_operatorAt_append (by simpa using free) cs

/-- The operators that are read of a body are those of its quoted runs, if no run puts the reader
off, and if none that is read has a backslash. -/
theorem matchesIn_operatorAt_of_meets (h : Meets body runs) (settled : ∀ r ∈ runs, r.Settled)
    (dashless : ∀ r ∈ runs, r.mark = '"' → ¬r.HasDashes)
    (plain : ∀ o ∈ matchesIn operatorAt (withoutLineComments body), '\\' ∉ o.toList) :
    matchesIn operatorAt (withoutLineComments body) = runs.filterMap QuotedRun.operator? := by
  -- Induction on what the walk meets: the reader comes to the same things in the same order.
  induction h with
  | nil => rfl
  | comment oneLine h ih =>
    rw [withoutLineComments_comment oneLine] at plain ⊢
    exact ih settled dashless plain
  | @quoted mark run body runs hm hr h ih =>
    obtain ⟨here, settledLater⟩ := List.forall_mem_cons.mp settled
    obtain ⟨apart, dashlessLater⟩ := List.forall_mem_cons.mp dashless
    have other : mark ≠ '-' := by rcases hm with rfl | rfl <;> decide
    have single : ¬['-', '-'] <:+: run := hm.elim apart here.dashless
    rw [withoutLineComments_quoted other single] at plain ⊢
    rcases hm with rfl | rfl
    -- Only double quotes are looked for.
    · have filled : run ≠ [] := here.filled rfl
      have read := matchesIn_operatorAt_doubleQuoted hr filled plain
      rw [read] at plain ⊢
      rw [ih settledLater dashlessLater fun o ho => plain o (List.mem_cons_of_mem _ ho)]
      simp [QuotedRun.operator?, filled]
    · have read := matchesIn_operatorAt_slashed (here.quoteless rfl) (withoutLineComments body)
      rw [read] at plain ⊢
      rw [ih settledLater dashlessLater plain]
      simp [QuotedRun.operator?]
  | @other c body runs hc apart h ih =>
    have free : '"' ∉ [c] := by
      simp only [List.mem_cons, not_or] at hc
      simpa using Ne.symm hc.1
    have kept : withoutLineComments (c :: body) = [c] ++ withoutLineComments body :=
      dropLineComments_cons apart
    rw [kept, matchesIn_operatorAt_append free] at plain ⊢
    exact ih settled dashless plain

/-! ## Files -/

/-- The operators of a file are those of its operator section, and their characters have names. -/
theorem exists_lexical_of_read {text : String} {g : GrammarFile} (h : GrammarFile.read text = .ok g) :
    ∃ lexical, block? "@lexical" (withoutBlockComments text.toList) = some lexical ∧
      g.operatorList =
        GrammarFile.readOperators (GrammarFile.section? "@operators" lexical.body) ∧
      ∀ o ∈ g.operatorList, ∀ c ∈ o.toList, (charName? c).isSome := by
  obtain ⟨lexical, named, found, listed, names, -⟩ := GrammarFile.exists_of_read h
  obtain ⟨spelled, told⟩ := operatorName_of_nameOperators names
  refine ⟨lexical, found, listed, ?_⟩
  intro o ho
  rw [← spelled] at ho
  obtain ⟨entry, he, rfl⟩ := List.mem_map.mp ho
  exact isSome_charName?_of_operatorName (told entry he)

/-- How operators that were read compare with quoted runs. If a run in double quotes has two hyphens
in it, they are not the operators of the runs. They are, in the order of spellings, if there is no
such run and no other that puts the reader off. -/
structure ReadsOperators (operators : List String) (runs : List QuotedRun) : Prop where
  differ : (∃ run ∈ runs, run.mark = '"' ∧ run.HasDashes) →
    ¬operators.Perm (runs.filterMap QuotedRun.operator?)
  agree : (∀ run ∈ runs, run.Settled) → (∀ run ∈ runs, run.mark = '"' → ¬run.HasDashes) →
    operators = (runs.filterMap QuotedRun.operator?).mergeSort spellingOrder

/-- The operators of a file that is read compare with the quoted runs of its operator section. -/
theorem operators_compare_with_quoted_runs {text : String} {g : GrammarFile}
    (accepted : GrammarFile.read text = .ok g) :
    ∃ lexical, block? "@lexical" (withoutBlockComments text.toList) = some lexical ∧
      ReadsOperators g.operatorList (quotedRuns "@operators" lexical.body) := by
  obtain ⟨lexical, found, listed, named⟩ := exists_lexical_of_read accepted
  have meets := meets_section "@operators" lexical.body
  have sorted {o : String} : o ∈ g.operatorList ↔ o ∈ matchesIn operatorAt
      (withoutLineComments (GrammarFile.section? "@operators" lexical.body)) := by
    rw [listed]
    exact List.mem_mergeSort
  refine ⟨lexical, found, ?_, ?_⟩
  · -- The operator of the run has two hyphens, and none that is read has.
    rintro ⟨run, met, double, dashes⟩ same
    have filled : run.content ≠ [] := by
      rintro empty
      rw [QuotedRun.HasDashes, empty] at dashes
      simp at dashes
    have written : String.ofList run.content ∈
        (quotedRuns "@operators" lexical.body).filterMap QuotedRun.operator? :=
      List.mem_filterMap.mpr ⟨run, met, by rw [QuotedRun.operator?, if_pos ⟨double, filled⟩]⟩
    have read := sorted.mp (same.mem_iff.mpr written)
    exact not_infix_of_mem_matchesIn read (by rwa [String.toList_ofList])
  · intro settled dashless
    rw [listed, GrammarFile.readOperators, matchesIn_operatorAt_of_meets meets settled dashless]
    -- A backslash has no name, so no operator of a file that is read has one.
    intro o read escaped
    cases named o (sorted.mpr read) _ escaped

/-- A file with double quotes and a brace in a comment, and with a run in slashes. -/
def notedText : String :=
  "@lexical \x7b @operators \x7b -- a \"note\" \x7d\n \"<=\" /[a-z]/ \x7d \x7d"

/-- What the file declares. -/
def notedFile : GrammarFile :=
  ⟨.ofList [], ["<="], .ofList [("<=", "LT_EQ")], .ofList [], []⟩

theorem operators_compare_with_quoted_runs_notedText :
    GrammarFile.read notedText = .ok notedFile ∧
      ∃ lexical, block? "@lexical" (withoutBlockComments notedText.toList) = some lexical ∧
        ReadsOperators notedFile.operatorList (quotedRuns "@operators" lexical.body) := by
  have accepted : GrammarFile.read notedText = .ok notedFile := by decide +kernel
  exact ⟨accepted, operators_compare_with_quoted_runs accepted⟩

/-- A file whose first operator is two hyphens. -/
def dashedText : String := "@lexical \x7b @operators \x7b \"--\" \"+\" \x7d \x7d"

/-- The hyphens are taken for a comment, and no operator is read at all. -/
theorem dashed_operator_is_lost :
    ∃ lexical, block? "@lexical" (withoutBlockComments dashedText.toList) = some lexical ∧
      quotedRuns "@operators" lexical.body = [⟨'"', ['-', '-']⟩, ⟨'"', ['+']⟩] ∧
      GrammarFile.read dashedText =
        .ok ⟨.ofList [], [], .ofList [], .ofList [], []⟩ ∧
      ¬([] : List String).Perm
        ((quotedRuns "@operators" lexical.body).filterMap QuotedRun.operator?) := by
  have runs : (block? "@lexical" (withoutBlockComments dashedText.toList)).map
      (fun lexical => quotedRuns "@operators" lexical.body) =
        some [⟨'"', ['-', '-']⟩, ⟨'"', ['+']⟩] := by
    decide +kernel
  obtain ⟨lexical, found, met⟩ := Option.map_eq_some_iff.mp runs
  refine ⟨lexical, found, met, by decide +kernel, ?_⟩
  rw [met]
  decide +kernel

/-- Behind an empty run, the reader pairs the double quotes otherwise than the walk. -/
example : (block? "@lexical" "@lexical \x7b @operators \x7b \"\":\"+\" \x7d \x7d".toList).map
    (fun lexical => ((quotedRuns "@operators" lexical.body).filterMap QuotedRun.operator?,
      GrammarFile.readOperators (GrammarFile.section? "@operators" lexical.body))) =
    some (["+"], [":"]) := by
  decide +kernel

end BlockLang.Grammar
