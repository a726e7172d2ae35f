import BlockLang.Proofs.GrammarFile.Scans
import BlockLang.Proofs.Lexing.MaximalMunch

/-!
# Spans of blocks

The end of a block is found by a walk that counts braces and jumps over comments and quoted runs,
even past the end of the text. What it finds can be said without a walk: the text between the braces
of a block is a body, that is a run of comments, quoted runs, blocks in braces and other characters.
A text has no two fronts that are bodies with a closing brace behind them, so a block ends at one
place at most.

## Main definitions

* `Body cs`: the text is a body
* `Levels depth cs`: bodies of that many blocks inside one another, with the braces between them
* `OpensAt marker text place start`: a marker stands at a place and opens a body
* `FirstOpening marker text start`: the first place where it does
* `ClosesAt text start stop`: a body stands between two places, with a closing brace behind it

## Main results

* `closing?_append_of_body`: the walk gets behind a body
* `exists_levels_of_closing?`: what the walk got behind
* `closing?_eq_map_splitBody`: the walk by jumps ends where the walk by characters does
* `findOpening?_eq_some_iff`: what is found is the first opening
* `blockSpan?_exact`: what is found is the body of the first opening
-/

namespace BlockLang.Grammar

open Text

variable {c mark : Char} {cs ds run body rest marker text front : List Char}
  {depth i j place start stop : Nat}

/-! ## Bodies -/

/-- The text may stand between the braces of a block: a run of comments, which end with their lines,
of quoted runs, of blocks in braces, and of other characters. Two hyphens are always a comment. -/
inductive Body : List Char → Prop
  | nil : Body []
  | comment {run body : List Char} (oneLine : '\n' ∉ run) (h : Body body) :
      Body ('-' :: '-' :: (run ++ '\n' :: body))
  | quoted {mark : Char} {run body : List Char} (hm : mark = '"' ∨ mark = '/')
      (hr : isQuotedRun mark run) (h : Body body) : Body (mark :: (run ++ mark :: body))
  | braces {inner body : List Char} (hi : Body inner) (h : Body body) :
      Body ('{' :: (inner ++ '}' :: body))
  | other {c : Char} {body : List Char} (hc : c ∉ ['"', '/', '{', '}'])
      (apart : ¬(c = '-' ∧ body.head? = some '-')) (h : Body body) : Body (c :: body)

/-- Behind a line feed, a body goes on. -/
theorem Body.of_lineFeed (h : Body ('\n' :: body)) : Body body := by
  cases h with
  | quoted hm => rcases hm with hm | hm <;> cases hm
  | other _ _ h => exact h

/-- Blocks are open inside one another, as many as `depth`: what is left of the bodies of these
blocks, and of the body around them, with the closing braces in between. -/
def Levels : Nat → List Char → Prop
  | 0, cs => Body cs
  | depth + 1, cs => ∃ inner outer, cs = inner ++ '}' :: outer ∧ Body inner ∧ Levels depth outer

namespace Levels

/-- What makes bodies of bodies may stand in front, if the first body stands at the front of the
whole. -/
theorem prepend (h : Levels depth cs)
    (hf : ∀ body, body <+: cs → Body body → Body (front ++ body)) : Levels depth (front ++ cs) := by
  cases depth with
  | zero => exact hf cs (List.prefix_refl cs) h
  | succ depth =>
    obtain ⟨inner, outer, rfl, hi, ho⟩ := h
    exact ⟨front ++ inner, outer, by rw [List.append_assoc],
      hf inner (List.prefix_append ..) hi, ho⟩

theorem of_lineFeed (h : Levels depth ('\n' :: cs)) : Levels depth cs := by
  cases depth with
  | zero => exact Body.of_lineFeed h
  | succ depth =>
    obtain ⟨inner, outer, split, hi, ho⟩ := h
    cases inner with
    | nil => cases split
    | cons c inner =>
      obtain ⟨rfl, rfl⟩ := List.cons.inj split
      exact ⟨inner, outer, rfl, hi.of_lineFeed, ho⟩

/-- A block in front of what is left of the block around it. -/
theorem braces (h : Levels (depth + 1) cs) : Levels depth ('{' :: cs) := by
  obtain ⟨inner, outer, rfl, hi, ho⟩ := h
  have whole : '{' :: (inner ++ '}' :: outer) = ('{' :: inner ++ ['}']) ++ outer := by simp
  rw [whole]
  refine ho.prepend fun body _ hb => ?_
  simpa using Body.braces hi hb

theorem close (h : Levels depth cs) : Levels (depth + 1) ('}' :: cs) :=
  ⟨[], cs, rfl, .nil, h⟩

end Levels

/-! ## Quoted runs -/

theorem quotedLength_self (mark : Char) (cs : List Char) : quotedLength mark (mark :: cs) = 1 := by
  rw [quotedLength.eq_def]
  simp

theorem quotedLength_escaped (hm : '\\' ≠ mark) (c : Char) (cs : List Char) :
    quotedLength mark ('\\' :: c :: cs) = 2 + quotedLength mark cs := by
  rw [quotedLength.eq_def]
  simp [hm]

theorem quotedLength_cons (hm : c ≠ mark) (hc : c ≠ '\\') (cs : List Char) :
    quotedLength mark (c :: cs) = 1 + quotedLength mark cs := by
  rw [quotedLength.eq_def]
  simp [hm, hc]

/-- A quoted run reaches up to the next mark that no backslash takes. -/
theorem quotedLength_append (h : isQuotedRun mark run) (hm : '\\' ≠ mark) (cs : List Char) :
    quotedLength mark (run ++ mark :: cs) = run.length + 1 := by
  fun_induction isQuotedRun mark run with
  | case1 => exact quotedLength_self mark cs
  | case2 d run ih =>
    rw [List.cons_append, List.cons_append, quotedLength_escaped hm, ih h, List.length_cons,
      List.length_cons]
    omega
  | case3 c run other ih =>
    simp only [Bool.and_eq_true, bne_iff_ne] at h
    rw [List.cons_append, quotedLength_cons h.1.1 h.1.2, ih h.2, List.length_cons]
    omega

/-- A quoted run that does not reach over the end of the text is closed. -/
theorem exists_isQuotedRun (h : quotedLength mark cs ≤ cs.length) :
    ∃ run, cs.take (quotedLength mark cs) = run ++ [mark] ∧ isQuotedRun mark run := by
  fun_induction quotedLength mark cs with
  | case1 => simp at h
  | case2 cs => exact ⟨[], by simp, rfl⟩
  | case3 => simp at h
  | case4 d rest other ih =>
    obtain ⟨run, taken, quoted⟩ := ih (by simp only [List.length_cons] at h; omega)
    refine ⟨'\\' :: d :: run, ?_, by simpa [isQuotedRun] using quoted⟩
    rw [Nat.add_comm, List.take_succ_cons, List.take_succ_cons, taken]
    rfl
  | case5 c cs other plain ih =>
    obtain ⟨run, taken, quoted⟩ := ih (by simp only [List.length_cons] at h; omega)
    refine ⟨c :: run, ?_, ?_⟩
    · rw [Nat.add_comm, List.take_succ_cons, taken]
      rfl
    · rw [isQuotedRun.eq_def]
      simp [other, plain, quoted]

/-! ## The walk -/

theorem closing?_other (hc : c ∉ ['"', '/', '{', '}']) (apart : ¬(c = '-' ∧ cs.head? = some '-'))
    (depth i : Nat) : closing? depth i (c :: cs) = closing? depth (i + 1) cs := by
  simp only [List.mem_cons, List.not_mem_nil, or_false, not_or] at hc
  rw [closing?.eq_def]
  simp [apart, hc]

theorem closing?_opened (depth i : Nat) (cs : List Char) :
    closing? depth i ('{' :: cs) = closing? (depth + 1) (i + 1) cs := by
  rw [closing?.eq_def]
  simp

theorem closing?_closed (depth i : Nat) (cs : List Char) :
    closing? (depth + 1) i ('}' :: cs) = closing? depth (i + 1) cs := by
  rw [closing?.eq_def]
  simp

/-- A comment is jumped over, and the line feed behind it is no sign. -/
theorem closing?_comment (oneLine : '\n' ∉ run) (depth i : Nat) (cs : List Char) :
    closing? depth i ('-' :: '-' :: (run ++ '\n' :: cs)) =
      closing? depth (i + (run.length + 3)) cs := by
  have comment : ('-' :: (run ++ '\n' :: cs)).takeWhile (· ≠ '\n') = '-' :: run := by
    have inside : ∀ c ∈ '-' :: run, decide (c ≠ '\n') := by
      simpa using fun c hc => ne_of_mem_of_not_mem hc oneLine
    rw [← List.cons_append, List.takeWhile_append_of_pos inside]
    simp
  have jump : closing? depth i ('-' :: '-' :: (run ++ '\n' :: cs)) =
      closing? depth (i + 1 + ('-' :: run).length) ('\n' :: cs) := by
    rw [closing?.eq_def]
    simp only [List.head?_cons, and_self, if_true, comment]
    rw [← List.cons_append, List.drop_left]
  rw [jump, closing?_other (by decide) (by simp), List.length_cons]
  congr 1
  omega

/-- A quoted run is jumped over. -/
theorem closing?_quoted (hm : mark = '"' ∨ mark = '/') (hr : isQuotedRun mark run) (depth i : Nat)
    (cs : List Char) : closing? depth i (mark :: (run ++ mark :: cs)) =
      closing? depth (i + (run.length + 2)) cs := by
  have signs : '\\' ≠ mark ∧ mark ≠ '-' := by rcases hm with rfl | rfl <;> decide
  have behind : (run ++ mark :: cs).drop (run.length + 1) = cs := by simp
  rw [closing?.eq_def]
  simp only [signs.2, false_and, if_false, hm, if_true, quotedLength_append hr signs.1, behind]
  congr 1
  omega

/-- The walk gets behind a body, unless a hyphen that follows makes a comment with its last one. -/
theorem closing?_append_of_body (h : Body body) (hc : cs.head? ≠ some '-') (depth i : Nat) :
    closing? depth i (body ++ cs) = closing? depth (i + body.length) cs := by
  induction h generalizing depth i cs with
  | nil => rfl
  | @comment run body oneLine h ih =>
    have text : '-' :: '-' :: (run ++ '\n' :: body) ++ cs =
        '-' :: '-' :: (run ++ '\n' :: (body ++ cs)) := by simp
    rw [text, closing?_comment oneLine, ih hc]
    simp only [List.length_cons, List.length_append]
    congr 1
    omega
  | @quoted mark run body hm hr h ih =>
    have text : mark :: (run ++ mark :: body) ++ cs = mark :: (run ++ mark :: (body ++ cs)) := by
      simp
    rw [text, closing?_quoted hm hr, ih hc]
    simp only [List.length_cons, List.length_append]
    congr 1
    omega
  | @braces inner body hi h ihi ih =>
    have text : '{' :: (inner ++ '}' :: body) ++ cs = '{' :: (inner ++ '}' :: (body ++ cs)) := by
      simp
    rw [text, closing?_opened, ihi (by simp), closing?_closed, ih hc]
    simp only [List.length_cons, List.length_append]
    congr 1
    omega
  | @other c body plain apart h ih =>
    have apart' : ¬(c = '-' ∧ (body ++ cs).head? = some '-') := by
      cases body with
      | nil => exact fun sign => hc sign.2
      | cons d body => exact apart
    rw [List.cons_append, closing?_other plain apart', ih hc, List.length_cons]
    congr 1
    omega

/-- A comment that was jumped over ended with its line, if a closing brace was found behind it. -/
theorem exists_comment (hyphen : cs.head? = some '-')
    (text : cs.drop (cs.takeWhile (· ≠ '\n')).length = body ++ '}' :: rest) :
    ∃ run more, cs.takeWhile (· ≠ '\n') = '-' :: run ∧ '\n' ∉ run ∧ body = '\n' :: more := by
  have comment := longestRun_takeWhile (· ≠ '\n') cs
  obtain ⟨cs, rfl⟩ : ∃ more, cs = '-' :: more := List.head?_eq_some_iff.mp hyphen
  rw [text] at comment
  rw [List.takeWhile_cons_of_pos (by decide)] at comment ⊢
  refine ⟨_, body.tail, rfl, fun inside => ?_, ?_⟩
  · simpa using comment.inside '\n' (List.mem_cons_of_mem _ inside)
  · have stops := comment.stops
    cases body with
    | nil => simp at stops
    | cons c body => simpa using stops

/-- A quoted run that was jumped over was closed, if a closing brace was found behind it. -/
theorem exists_quoted (text : cs.drop (quotedLength mark cs) = body ++ '}' :: rest) :
    ∃ run, cs = run ++ mark :: (body ++ '}' :: rest) ∧ isQuotedRun mark run ∧
      quotedLength mark cs = run.length + 1 := by
  have short : quotedLength mark cs ≤ cs.length := by
    by_contra long
    rw [List.drop_of_length_le (by omega)] at text
    cases body <;> cases text
  obtain ⟨run, taken, quoted⟩ := exists_isQuotedRun short
  refine ⟨run, ?_, quoted, ?_⟩
  · rw [← text, List.append_cons, ← taken, List.take_append_drop]
  · rw [← List.length_take_of_le short, taken, List.length_append, List.length_singleton]

/-- Where the walk stops, it is behind the bodies of all open blocks. -/
theorem exists_levels_of_closing? (h : closing? depth i cs = some j) :
    ∃ body rest, cs = body ++ '}' :: rest ∧ j = i + body.length ∧ Levels depth body := by
  fun_induction closing? depth i cs with
  | case1 => cases h
  | case2 depth i c cs sign comment ih =>
    obtain ⟨body, rest, text, rfl, levels⟩ := ih h
    obtain ⟨rfl, hyphen⟩ := sign
    obtain ⟨run, more, (hr : comment = '-' :: run), oneLine, rfl⟩ := exists_comment hyphen text
    have split : comment ++ ('\n' :: more ++ '}' :: rest) = cs := text ▸ takeWhile_append_drop _ cs
    refine ⟨'-' :: comment ++ '\n' :: more, rest, ?_, ?_, ?_⟩
    · rw [← split]
      simp
    · simp only [List.length_append, List.length_cons]
      omega
    · have front : '-' :: comment ++ '\n' :: more = ('-' :: '-' :: (run ++ ['\n'])) ++ more := by
        simp [hr]
      rw [front]
      exact levels.of_lineFeed.prepend fun inner _ hi => by simpa using Body.comment oneLine hi
  | case3 depth i mark cs sign hm ih =>
    obtain ⟨body, rest, text, rfl, levels⟩ := ih h
    obtain ⟨run, split, quoted, length⟩ := exists_quoted text
    refine ⟨mark :: (run ++ [mark]) ++ body, rest, ?_, ?_, levels.prepend fun inner _ hi => ?_⟩
    · rw [split]
      simp
    · simp only [List.length_append, List.length_cons, List.length_nil, length]
      omega
    · simpa using Body.quoted hm quoted hi
  | case4 depth i cs _ _ ih =>
    obtain ⟨body, rest, rfl, rfl, levels⟩ := ih h
    exact ⟨'{' :: body, rest, rfl, by simp only [List.length_cons]; omega, levels.braces⟩
  | case5 i cs => exact ⟨[], cs, rfl, (Option.some.inj h).symm, .nil⟩
  | case6 i cs depth _ _ _ ih =>
    obtain ⟨body, rest, rfl, rfl, levels⟩ := ih h
    exact ⟨'}' :: body, rest, rfl, by simp only [List.length_cons]; omega, levels.close⟩
  | case7 depth i c cs sign mark opened closed ih =>
    obtain ⟨body, rest, rfl, rfl, levels⟩ := ih h
    refine ⟨c :: body, rest, rfl, by simp only [List.length_cons]; omega,
      (?_ : Levels depth ([c] ++ body))⟩
    refine levels.prepend fun inner front hi => .other ?_ (fun hyphens => sign ?_) hi
    · rw [not_or] at mark
      simp [mark, opened, closed]
    · obtain ⟨more, rfl⟩ := front
      cases inner with
      | nil => cases hyphens.2
      | cons d inner => exact hyphens

/-- The walk finds the brace behind the body at the front of a text, if there is one. -/
theorem closing?_eq_some_iff : closing? 0 i cs = some j ↔
    ∃ body rest, cs = body ++ '}' :: rest ∧ j = i + body.length ∧ Body body := by
  constructor
  · exact exists_levels_of_closing?
  · rintro ⟨body, rest, rfl, rfl, h⟩
    rw [closing?_append_of_body h (by simp), closing?.eq_def]
    simp

/-! ## The walk by characters -/

/-- Inside a comment, the walk by characters goes on to the end of the line. -/
theorem splitBody_comment (depth : Nat) (cs : List Char) :
    splitBody .comment depth cs =
      (splitBody .plain depth (cs.drop (cs.takeWhile (· ≠ '\n')).length)).map fun split =>
        (cs.takeWhile (· ≠ '\n') ++ split.1, split.2) := by
  induction cs with
  | nil => rfl
  | cons c cs ih =>
    by_cases hc : c = '\n'
    · subst hc
      simp [splitBody, Function.comp_def]
    · simp only [splitBody, hc, if_false, ih, Option.map_map]
      simp [hc, Function.comp_def]

/-- Inside a quoted run, the walk by characters goes on to the end of the run. -/
theorem splitBody_quotedLength (hm : '\\' ≠ mark) (depth : Nat) (cs : List Char) :
    splitBody (.quoted mark) depth cs =
      (splitBody .plain depth (cs.drop (quotedLength mark cs))).map fun split =>
        (cs.take (quotedLength mark cs) ++ split.1, split.2) := by
  fun_induction quotedLength mark cs with
  | case1 => rfl
  | case2 cs => simp [splitBody]
  | case3 => simp [splitBody]
  | case4 d rest other ih =>
    rw [Nat.add_comm 2]
    simp [splitBody, hm, ih, Function.comp_def]
  | case5 c cs other plain ih =>
    rw [Nat.add_comm 1]
    simp [splitBody, other, plain, ih, Function.comp_def]

/-- The walk by jumps stops where the walk by characters does. -/
theorem closing?_eq_map_splitBody (depth i : Nat) (cs : List Char) :
    closing? depth i cs = (splitBody .plain depth cs).map fun split => i + split.1.length := by
  fun_induction closing? depth i cs with
  | case1 => rfl
  | case2 depth i c cs sign comment ih =>
    have walk : splitBody .plain depth (c :: cs) =
        (splitBody .comment depth cs).map fun split => (c :: split.1, split.2) := by
      simp [splitBody, sign]
    rw [ih, walk, splitBody_comment, Option.map_map, Option.map_map]
    refine congrArg (Option.map · _) (funext fun split => ?_)
    simp only [Function.comp_apply, List.length_cons, List.length_append, comment]
    omega
  | case3 depth i mark cs sign hm ih =>
    have other : '\\' ≠ mark := by rcases hm with rfl | rfl <;> decide
    have walk : splitBody .plain depth (mark :: cs) =
        (splitBody (.quoted mark) depth cs).map fun split => (mark :: split.1, split.2) := by
      simp [splitBody, sign, hm]
    rw [ih, walk, splitBody_quotedLength other, Option.map_map, Option.map_map]
    by_cases long : cs.length ≤ quotedLength mark cs
    · -- Both walks are at the end of the text.
      rw [List.drop_of_length_le long]
      rfl
    · refine congrArg (Option.map · _) (funext fun split => ?_)
      simp only [Function.comp_apply, List.length_cons, List.length_append, List.length_take]
      omega
  | case4 depth i cs _ _ ih =>
    simp [ih, splitBody, Function.comp_def, Nat.add_right_comm, Nat.add_assoc]
  | case5 i cs => simp [splitBody]
  | case6 i cs depth _ _ _ ih =>
    simp [ih, splitBody, Function.comp_def, Nat.add_right_comm, Nat.add_assoc]
  | case7 depth i c cs sign mark opened closed ih =>
    simp [ih, splitBody, sign, mark, opened, closed, Function.comp_def, Nat.add_right_comm,
      Nat.add_assoc]

/-! ## Openings -/

/-- At the place, the text has the marker, blanks and an opening brace, and it has `start` behind
the brace. -/
def OpensAt (marker text : List Char) (place start : Nat) : Prop :=
  ∃ blanks rest, (∀ c ∈ blanks, isBlank c) ∧
    text.drop place = marker ++ (blanks ++ '{' :: rest) ∧
    start = place + marker.length + blanks.length + 1

/-- The text has `start` behind the brace of the first place where the marker opens a body. -/
def FirstOpening (marker text : List Char) (start : Nat) : Prop :=
  ∃ place, OpensAt marker text place start ∧
    ∀ other start', OpensAt marker text other start' → place ≤ other

theorem longestRun_blanks {blanks : List Char} (h : ∀ c ∈ blanks, isBlank c) (rest : List Char) :
    LongestRun isBlank blanks ('{' :: rest) := by
  refine ⟨h, fun c hc => ?_⟩
  obtain rfl := Option.some.inj hc
  rfl

theorem OpensAt.start_eq {start' : Nat} (h : OpensAt marker text place start)
    (h' : OpensAt marker text place start') : start = start' := by
  obtain ⟨blanks, rest, blank, here, rfl⟩ := h
  obtain ⟨blanks', rest', blank', here', rfl⟩ := h'
  have same := List.append_cancel_left (here.symm.trans here')
  obtain ⟨rfl, -⟩ := (longestRun_blanks blank rest).unique (longestRun_blanks blank' rest') same
  rfl

theorem FirstOpening.start_eq {start' : Nat} (h : FirstOpening marker text start)
    (h' : FirstOpening marker text start') : start = start' := by
  obtain ⟨place, opens, first⟩ := h
  obtain ⟨place', opens', first'⟩ := h'
  obtain rfl : place = place' := Nat.le_antisymm (first _ _ opens') (first' _ _ opens)
  exact opens.start_eq opens'

theorem opensAt_zero_iff : OpensAt marker cs 0 start ↔
    ∃ rest, afterOpening? marker cs = some rest ∧ start = cs.length - rest.length := by
  simp only [OpensAt, afterOpening?_eq_some_iff, List.drop_zero]
  constructor
  · rintro ⟨blanks, rest, blank, rfl, rfl⟩
    refine ⟨rest, ⟨blanks, blank, rfl⟩, ?_⟩
    simp only [List.length_append, List.length_cons]
    omega
  · rintro ⟨rest, ⟨blanks, blank, rfl⟩, rfl⟩
    refine ⟨blanks, rest, blank, rfl, ?_⟩
    simp only [List.length_append, List.length_cons]
    omega

theorem opensAt_succ_iff : OpensAt marker (c :: cs) (place + 1) start ↔
    ∃ start', OpensAt marker cs place start' ∧ start = start' + 1 := by
  simp only [OpensAt, List.drop_succ_cons]
  constructor
  · rintro ⟨blanks, rest, blank, here, rfl⟩
    exact ⟨_, ⟨blanks, rest, blank, here, rfl⟩, by omega⟩
  · rintro ⟨_, ⟨blanks, rest, blank, here, rfl⟩, rfl⟩
    exact ⟨blanks, rest, blank, here, by omega⟩

/-- A marker that opens no body at the front of a text does so further behind. -/
theorem OpensAt.of_cons (h : OpensAt marker (c :: cs) place start)
    (none : afterOpening? marker (c :: cs) = none) :
    ∃ place' start', OpensAt marker cs place' start' ∧ place = place' + 1 := by
  cases place with
  | zero =>
    obtain ⟨rest, here, -⟩ := opensAt_zero_iff.mp h
    cases none.symm.trans here
  | succ place =>
    obtain ⟨start', opens, -⟩ := opensAt_succ_iff.mp h
    exact ⟨place, start', opens, rfl⟩

/-- What is found is the first opening. -/
theorem firstOpening_of_findOpening? (h : findOpening? marker cs = some (front, rest)) :
    FirstOpening marker cs front.length := by
  induction cs generalizing front with
  | nil => cases h
  | cons c cs ih =>
    unfold findOpening? at h
    split at h
    · next rest' here =>
      obtain ⟨rfl, rfl⟩ := Prod.mk.inj (Option.some.inj h)
      refine ⟨0, opensAt_zero_iff.mpr ⟨rest', here, ?_⟩, fun _ _ _ => Nat.zero_le _⟩
      rw [List.length_take_of_le (Nat.sub_le ..)]
    · next none =>
      obtain ⟨split, found, same⟩ := Option.map_eq_some_iff.mp h
      obtain ⟨rfl, rfl⟩ := Prod.mk.inj same
      obtain ⟨place, opens, first⟩ := ih found
      refine ⟨place + 1, opensAt_succ_iff.mpr ⟨_, opens, rfl⟩, fun other start' opens' => ?_⟩
      obtain ⟨behind, start'', further, rfl⟩ := opens'.of_cons none
      exact Nat.succ_le_succ (first behind start'' further)

/-- Where nothing is found, no body is opened. -/
theorem not_opensAt_of_findOpening? (h : findOpening? marker cs = none) (place start : Nat) :
    ¬OpensAt marker cs place start := by
  induction cs generalizing place start with
  | nil =>
    rintro ⟨blanks, rest, -, here, -⟩
    simp at here
  | cons c cs ih =>
    intro opens
    unfold findOpening? at h
    split at h
    · cases h
    · next none =>
      obtain ⟨place, start, opens, -⟩ := opens.of_cons none
      exact ih (Option.map_eq_none_iff.mp h) place start opens

/-! ## Spans -/

/-- From `start` to `stop` the text has a body, and then a closing brace. -/
def ClosesAt (text : List Char) (start stop : Nat) : Prop :=
  start ≤ stop ∧ Body ((text.take stop).drop start) ∧ text[stop]? = some '}'

theorem closing?_drop_eq_some_iff :
    closing? 0 start (text.drop start) = some stop ↔ ClosesAt text start stop := by
  rw [closing?_eq_some_iff]
  constructor
  · rintro ⟨body, rest, here, rfl, h⟩
    refine ⟨Nat.le_add_right .., ?_, ?_⟩
    · rw [List.drop_take, here, Nat.add_sub_cancel_left, List.take_left]
      exact h
    · rw [← List.getElem?_drop, here]
      simp
  · rintro ⟨le, h, brace⟩
    obtain ⟨n, rfl⟩ := Nat.exists_eq_add_of_le le
    rw [List.drop_take, Nat.add_sub_cancel_left] at h
    rw [← List.getElem?_drop] at brace
    obtain ⟨inside, here⟩ := List.getElem?_eq_some_iff.mp brace
    refine ⟨(text.drop start).take n, (text.drop start).drop (n + 1), ?_, ?_, h⟩
    · rw [← here, List.getElem_cons_drop, List.take_append_drop]
    · rw [List.length_take_of_le (Nat.le_of_lt inside)]

/-- A body ends at one place at most. -/
theorem ClosesAt.stop_eq {stop' : Nat} (h : ClosesAt text start stop)
    (h' : ClosesAt text start stop') : stop = stop' := by
  rw [← closing?_drop_eq_some_iff] at h h'
  exact Option.some.inj (h.symm.trans h')

/-- The span of a block is that of its body. -/
theorem blockSpan?_eq_map_block? (marker : String) (text : List Char) :
    blockSpan? marker text = (block? marker text).map fun block =>
      (block.before.length, block.before.length + block.body.length) := by
  unfold blockSpan? block?
  split
  · rfl
  · rw [closing?_eq_map_splitBody, Option.map_map, Option.map_map]
    rfl

theorem blockSpan?_eq_some_iff {marker : String} : blockSpan? marker text = some (start, stop) ↔
    FirstOpening marker.toList text start ∧ ClosesAt text start stop := by
  unfold blockSpan?
  split
  · next none =>
    refine ⟨nofun, fun ⟨⟨place, opens, _⟩, _⟩ => ?_⟩
    exact absurd opens (not_opensAt_of_findOpening? none place start)
  · next front rest found =>
    have first := firstOpening_of_findOpening? found
    have behind : rest = text.drop front.length := by
      rw [← findOpening?_append found, List.drop_left]
    rw [Option.map_eq_some_iff, behind]
    constructor
    · rintro ⟨stop', closes, same⟩
      obtain ⟨rfl, rfl⟩ := Prod.mk.inj same
      exact ⟨first, closing?_drop_eq_some_iff.mp closes⟩
    · rintro ⟨opens, closes⟩
      obtain rfl := first.start_eq opens
      exact ⟨stop, closing?_drop_eq_some_iff.mpr closes, rfl⟩

/-- There is a first opening if there is one at all. -/
theorem exists_firstOpening (h : OpensAt marker text place start) :
    ∃ start', FirstOpening marker text start' := by
  cases found : findOpening? marker text with
  | none => exact absurd h (not_opensAt_of_findOpening? found place start)
  | some split => exact ⟨_, firstOpening_of_findOpening? found⟩

theorem blockSpan?_eq_none_iff {marker : String} : blockSpan? marker text = none ↔
    (∀ place start, ¬OpensAt marker.toList text place start) ∨
      ∃ start, FirstOpening marker.toList text start ∧ ∀ stop, ¬ClosesAt text start stop := by
  constructor
  · intro none
    by_cases opens : ∃ place start, OpensAt marker.toList text place start
    · obtain ⟨place, start, opens⟩ := opens
      obtain ⟨start, first⟩ := exists_firstOpening opens
      refine .inr ⟨start, first, fun stop closes => ?_⟩
      cases none.symm.trans (blockSpan?_eq_some_iff.mpr ⟨first, closes⟩)
    · exact .inl fun place start here => opens ⟨place, start, here⟩
  · intro missing
    refine Option.eq_none_iff_forall_ne_some.mpr fun (start, stop) found => ?_
    obtain ⟨first, closes⟩ := blockSpan?_eq_some_iff.mp found
    rcases missing with closed | ⟨start', first', open_ended⟩
    · obtain ⟨place, opens, -⟩ := first
      exact closed place start opens
    · obtain rfl := first.start_eq first'
      exact open_ended stop closes

/-- The span that is found is that of the body behind the first opening. None is found if there is
no opening, or no body behind the first one is closed. And no two bodies that begin at one place are
closed at different places. -/
theorem blockSpan?_exact (marker : String) (text : List Char) :
    (∀ start stop, blockSpan? marker text = some (start, stop) ↔
      FirstOpening marker.toList text start ∧ ClosesAt text start stop) ∧
    (blockSpan? marker text = none ↔
      (∀ place start, ¬OpensAt marker.toList text place start) ∨
        ∃ start, FirstOpening marker.toList text start ∧ ∀ stop, ¬ClosesAt text start stop) ∧
    ∀ start stop stop', ClosesAt text start stop → ClosesAt text start stop' → stop = stop' :=
  ⟨fun _ _ => blockSpan?_eq_some_iff, blockSpan?_eq_none_iff, fun _ _ _ => ClosesAt.stop_eq⟩

/-- A block with braces in a comment, in quoted runs, and in earnest, and what looks like another
end behind it. -/
def busyBlock : List Char := "@a \x7b -- \x7d\n /[\x7d]/ \"\x7d\" \x7b\x7d \x7d \x7d".toList

theorem blockSpan?_exact_busyBlock :
    FirstOpening "@a".toList busyBlock 4 ∧ ClosesAt busyBlock 4 24 ∧ busyBlock[26]? = some '\x7d' ∧
      ¬ClosesAt busyBlock 4 26 ∧ blockSpan? "@b" busyBlock = none := by
  have found : blockSpan? "@a" busyBlock = some (4, 24) := by
    rw [blockSpan?_eq_map_block?]
    decide +kernel
  have missing : blockSpan? "@b" busyBlock = none := by
    rw [blockSpan?_eq_map_block?]
    decide +kernel
  obtain ⟨span, -, unique⟩ := blockSpan?_exact "@a" busyBlock
  obtain ⟨first, closes⟩ := (span 4 24).mp found
  have other (h : ClosesAt busyBlock 4 26) : False := by
    cases unique 4 24 26 closes h
  exact ⟨first, closes, by decide +kernel, other, missing⟩

end BlockLang.Grammar
