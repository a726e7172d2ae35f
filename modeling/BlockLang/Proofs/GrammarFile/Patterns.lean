import BlockLang.Grammar.Reference
import BlockLang.Proofs.GrammarFile.Printing
import BlockLang.TokenType
import Mathlib.Computability.Language

/-!
# Patterns

A grammar file declares how the tokens of a literal class are written by a pattern, in the notation
of regular expressions. The program only asks whether there is a pattern for each class. Here
patterns are read, so that it can be asked what they match.

The notation has characters, a dot for every character of a line, classes of characters in brackets,
groups in parentheses, bars between alternatives, and the signs for repetition and omission behind
what they are about. A backslash stands before a character that would be a sign, and it makes a line
feed of an `n`.

## Main definitions

* `CharClass`, `Pattern`: what patterns are made of
* `Pattern.language p`: the texts that a pattern matches as a whole
* `Pattern.MatchesFront p run rest`: the run is the longest front of a text that the pattern matches
* `patternSigns walk cs`: the signs of a pattern in its notation
* `Pattern.read? text`: reads a pattern
* `declaredPattern? t`: the pattern of a literal class in the grammar file of the language
* `identifierPattern`, `numberPattern`, `stringPattern`: the patterns of the three literal classes

## Main results

* `exists_read_referenceText`: what the grammar file declares about literal classes
* `declaredPattern?_identifier`, `declaredPattern?_numberLiteral`,
  `declaredPattern?_stringLiteral`: the patterns that are read there
-/

namespace BlockLang

/-! ## What patterns match -/

/-- Characters that may stand at one place: those of some ranges, or all but those. -/
structure CharClass where
  negated : Bool
  ranges : List (Char × Char)
  deriving DecidableEq, Repr

namespace CharClass

/-- The character is of the class. -/
def has (k : CharClass) (c : Char) : Bool :=
  (k.ranges.any fun range => range.1 ≤ c && c ≤ range.2) != k.negated

/-- The class of one character. -/
def only (c : Char) : CharClass := ⟨false, [(c, c)]⟩

/-- The class of the characters that a line may have. -/
def ofLine : CharClass := ⟨true, [('\n', '\n')]⟩

end CharClass

/-- A regular expression. -/
inductive Pattern
  | empty
  | one (k : CharClass)
  | concat (p q : Pattern)
  | either (p q : Pattern)
  | many (p : Pattern)
  deriving DecidableEq, Repr

/-- The texts that a pattern matches as a whole. -/
def Pattern.language : Pattern → Language Char
  | empty => 1
  | one k => {cs | ∃ c, k.has c ∧ cs = [c]}
  | concat p q => p.language * q.language
  | either p q => p.language + q.language
  | many p => KStar.kstar p.language

namespace Pattern

variable {p q : Pattern} {k : CharClass} {cs : List Char}

theorem mem_concat : cs ∈ (concat p q).language ↔
    ∃ front ∈ p.language, ∃ rest ∈ q.language, front ++ rest = cs :=
  Language.mem_mul

theorem mem_either : cs ∈ (either p q).language ↔ cs ∈ p.language ∨ cs ∈ q.language :=
  Language.mem_add ..

theorem mem_empty : cs ∈ empty.language ↔ cs = [] := Language.mem_one ..

theorem language_concat_empty (p : Pattern) : (concat p empty).language = p.language :=
  mul_one p.language

/-- Repetition of a class: all characters are of the class. -/
theorem mem_many_one : cs ∈ (many (one k)).language ↔ ∀ c ∈ cs, k.has c := by
  rw [language, Language.mem_kstar]
  constructor
  · rintro ⟨parts, rfl, h⟩ c hc
    obtain ⟨part, hp, hc⟩ := List.mem_flatten.mp hc
    obtain ⟨d, hd, rfl⟩ := h part hp
    exact List.mem_singleton.mp hc ▸ hd
  · intro h
    refine ⟨cs.map fun c => [c], ?_, fun part hp => ?_⟩
    · rw [← List.flatMap_def, List.flatMap_singleton']
    · obtain ⟨c, hc, rfl⟩ := List.mem_map.mp hp
      exact ⟨c, h c hc, rfl⟩

theorem mem_concat_one : cs ∈ (concat (one k) q).language ↔
    ∃ c rest, cs = c :: rest ∧ k.has c ∧ rest ∈ q.language := by
  rw [mem_concat]
  constructor
  · rintro ⟨_, ⟨c, hc, rfl⟩, rest, hr, rfl⟩
    exact ⟨c, rest, rfl, hc, hr⟩
  · rintro ⟨c, rest, rfl, hc, hr⟩
    exact ⟨[c], ⟨c, hc, rfl⟩, rest, hr, rfl⟩

/-- Repetition of a class, at least once. -/
theorem mem_plus_one : cs ∈ (concat (one k) (many (one k))).language ↔
    cs ≠ [] ∧ ∀ c ∈ cs, k.has c := by
  rw [mem_concat_one]
  constructor
  · rintro ⟨c, rest, rfl, hc, hr⟩
    exact ⟨List.cons_ne_nil c rest, List.forall_mem_cons.mpr ⟨hc, mem_many_one.mp hr⟩⟩
  · rintro ⟨nonempty, h⟩
    obtain ⟨c, rest, rfl⟩ := List.exists_cons_of_ne_nil nonempty
    obtain ⟨hc, hr⟩ := List.forall_mem_cons.mp h
    exact ⟨c, rest, rfl, hc, mem_many_one.mpr hr⟩

/-- The run is the longest front of a text that the pattern matches. -/
structure MatchesFront (p : Pattern) (run rest : List Char) : Prop where
  matched : run ∈ p.language
  longest : ∀ longer, longer <+: run ++ rest → longer ∈ p.language → longer.length ≤ run.length

end Pattern

/-! ## The notation -/

/-- A sign of a pattern: a class of characters, or a sign that puts patterns together. -/
inductive PatternSign
  | one (k : CharClass)
  | opening
  | closing
  | bar
  | star
  | plus
  | option
  deriving DecidableEq, Repr

/-- Where a walk over a pattern stands: outside of brackets, or in brackets behind some ranges. -/
inductive PatternWalk
  | outside
  | inside (negated : Bool) (ranges : List (Char × Char))

/-- What a backslash makes of a character. Letters and digits have meanings of their own behind it,
of which only the line feed belongs to the notation. -/
def escapedChar? (c : Char) : Option Char :=
  if c = 'n' then some '\n' else if c.isAlphanum then none else some c

/-- The signs of a pattern in its notation. -/
def patternSigns : PatternWalk → List Char → Option (List PatternSign)
  | .outside, [] => some []
  | .outside, '[' :: '^' :: cs => patternSigns (.inside true []) cs
  | .outside, '[' :: cs => patternSigns (.inside false []) cs
  | .outside, '\\' :: c :: cs => do
    let sign := PatternSign.one (.only (← escapedChar? c))
    pure (sign :: (← patternSigns .outside cs))
  | .outside, c :: cs => do
    let sign ←
      match c with
      | '(' => some .opening
      | ')' => some .closing
      | '|' => some .bar
      | '*' => some .star
      | '+' => some .plus
      | '?' => some .option
      | '.' => some (.one .ofLine)
      | _ => if c ∈ ['\\', ']', '\x7b', '\x7d', '^', '$'] then none else some (.one (.only c))
    pure (sign :: (← patternSigns .outside cs))
  | .inside _ _, [] => none
  | .inside negated ranges, ']' :: cs => do
    pure (.one ⟨negated, ranges⟩ :: (← patternSigns .outside cs))
  | .inside negated ranges, '\\' :: c :: cs => do
    let c ← escapedChar? c
    patternSigns (.inside negated (ranges ++ [(c, c)])) cs
  | .inside negated ranges, first :: '-' :: last :: cs =>
    if last = ']' then none else patternSigns (.inside negated (ranges ++ [(first, last)])) cs
  | .inside negated ranges, c :: cs => patternSigns (.inside negated (ranges ++ [(c, c)])) cs

/-- A group that is not closed: its alternatives before the last bar, and the parts behind this bar,
the last one first. -/
structure OpenGroup where
  earlier : Option Pattern
  parts : List Pattern

namespace OpenGroup

/-- The group so far, as a pattern. -/
def pattern (g : OpenGroup) : Pattern :=
  let last := g.parts.foldl (fun rest part => .concat part rest) .empty
  g.earlier.elim last fun earlier => .either earlier last

/-- One more part. -/
def push (g : OpenGroup) (p : Pattern) : OpenGroup := { g with parts := p :: g.parts }

/-- Puts together what signs say, inside a group and the groups around it. -/
def read? (around : List OpenGroup) (g : OpenGroup) : List PatternSign → Option Pattern
  | [] => if around.isEmpty then some g.pattern else none
  | sign :: signs =>
    match sign, around, g.parts with
    | .one k, _, _ => read? around (g.push (.one k)) signs
    | .opening, _, _ => read? (g :: around) ⟨none, []⟩ signs
    | .closing, outer :: around, _ => read? around (outer.push g.pattern) signs
    | .bar, _, _ => read? around ⟨some g.pattern, []⟩ signs
    | .star, _, p :: parts => read? around { g with parts := .many p :: parts } signs
    | .plus, _, p :: parts => read? around { g with parts := .concat p (.many p) :: parts } signs
    | .option, _, p :: parts => read? around { g with parts := .either p .empty :: parts } signs
    | _, _, _ => none

end OpenGroup

/-- Reads a pattern. -/
def Pattern.read? (text : String) : Option Pattern := do
  OpenGroup.read? [] ⟨none, []⟩ (← patternSigns .outside text.toList)

/-! ## The grammar file of the language -/

open Grammar

/-- The literal classes of the language, with their patterns as they are written. -/
def literalPatterns : List (String × String) :=
  [("identifier", "[A-Za-z_][A-Za-z0-9_]*"),
   ("numberConstant", "[0-9]+(\\.[0-9]+)?"),
   ("stringConstant", "\"([^\"\\\\\\n]|\\\\.)*\"")]

/-- The operators of the language as they are listed. -/
def listedOperators : List String :=
  ["<", "<=", "=", "/=", ">", ">=", "+", "-", "*", "/", ":=", ";", ",", "(", ")"]

theorem isOperator_of_mem_listedOperators : ∀ o ∈ listedOperators, IsOperator o := by
  decide +kernel

/-- The lines of the sections of literal classes and of operators, the latter without comments. -/
def literalLines : List String :=
  ["\n",
   "        identifier      = /[A-Za-z_][A-Za-z0-9_]*/\n",
   "        numberConstant  = /[0-9]+(\\.[0-9]+)?/\n",
   "        stringConstant  = /\"([^\"\\\\\\n]|\\\\.)*\"/\n",
   "    "]

@[inherit_doc literalLines]
def operatorLines : List String :=
  ["\n        \n",
   "        \"<\" \"<=\" \"=\" \"/=\" \">\" \">=\"\n",
   "        \n",
   "        \"+\" \"-\" \"*\" \"/\"\n",
   "        \n",
   "        \":=\"\n",
   "        \n",
   "        \";\" \",\" \"(\" \")\"\n",
   "    "]

theorem matchesIn_literalLines :
    Text.matchesIn literalAt (literalLines.flatMap String.toList) = literalPatterns := by
  decide +kernel

theorem matchesIn_operatorLines :
    Text.matchesIn operatorAt (operatorLines.flatMap String.toList) = listedOperators := by
  decide +kernel

/-- The sections of the grammar file of the language. -/
theorem exists_lexical_referenceText :
    ∃ b, block? "@lexical" (withoutBlockComments referenceText.toList) = some b ∧
      GrammarFile.section? "@literals" b.body = literalLines.flatMap String.toList ∧
      withoutLineComments (GrammarFile.section? "@operators" b.body) =
        operatorLines.flatMap String.toList := by
  have text : referenceText.toList =
      (lexicalLines ++ "\n" :: productionLines).flatMap String.toList := by
    rw [referenceText, String.toList_join]
  have lexical : (block? "@lexical" (withoutBlockComments referenceText.toList)).any
      fun (b : Block) => decide (GrammarFile.section? "@literals" b.body = literalLines.flatMap String.toList ∧
        withoutLineComments (GrammarFile.section? "@operators" b.body) =
          operatorLines.flatMap String.toList) := by
    rw [text]
    decide +kernel
  obtain ⟨b, found, sections⟩ := (Option.any_eq_true ..).mp lexical
  exact ⟨b, found, of_decide_eq_true sections⟩

/-- A grammar file can be read if its operators have names. -/
theorem exists_read {text : String} {b : Block}
    (found : block? "@lexical" (withoutBlockComments text.toList) = some b)
    (named : ∀ o ∈ Text.matchesIn operatorAt
      (withoutLineComments (GrammarFile.section? "@operators" b.body)), IsOperator o) :
    ∃ file, GrammarFile.read text = .ok file ∧ file.literals =
      .ofList (Text.matchesIn literalAt (GrammarFile.section? "@literals" b.body)) := by
  have sorted : ∀ o ∈ GrammarFile.readOperators (GrammarFile.section? "@operators" b.body),
      IsOperator o :=
    fun o ho => named o (List.mem_mergeSort.mp ho)
  exact ⟨_, by simp only [GrammarFile.read, found, nameOperators_eq sorted]; rfl, rfl⟩

/-- The grammar file of the language can be read, and it declares these literal classes. -/
theorem exists_read_referenceText : ∃ file,
    GrammarFile.read referenceText = .ok file ∧ file.literals = .ofList literalPatterns := by
  obtain ⟨b, found, literals, operators⟩ := exists_lexical_referenceText
  rw [← matchesIn_literalLines, ← literals]
  refine exists_read found ?_
  rw [operators, matchesIn_operatorLines]
  exact isOperator_of_mem_listedOperators

/-- The pattern of a literal class in the grammar file of the language. -/
def declaredPattern? (t : TokenType) : Option Pattern :=
  (GrammarFile.read referenceText).toOption.bind fun file =>
    (file.literals.find? t.displayName).bind Pattern.read?

theorem declaredPattern?_eq (t : TokenType) : declaredPattern? t =
    ((Dictionary.ofList literalPatterns).find? t.displayName).bind Pattern.read? := by
  obtain ⟨file, read, literals⟩ := exists_read_referenceText
  rw [declaredPattern?, read, Except.toOption, Option.bind_some, literals]

/-- The classes of characters in these patterns: those that begin an identifier, those inside one,
those of numbers, and those of string constants that no backslash stands before. -/
def wordStarts : CharClass := ⟨false, [('A', 'Z'), ('a', 'z'), ('_', '_')]⟩

@[inherit_doc wordStarts]
def wordChars : CharClass := ⟨false, [('A', 'Z'), ('a', 'z'), ('0', '9'), ('_', '_')]⟩

@[inherit_doc wordStarts]
def digits : CharClass := ⟨false, [('0', '9')]⟩

@[inherit_doc wordStarts]
def unquoted : CharClass := ⟨true, [('"', '"'), ('\\', '\\'), ('\n', '\n')]⟩

/-- The pattern of identifiers. -/
def identifierPattern : Pattern :=
  .concat (.one wordStarts) (.concat (.many (.one wordChars)) .empty)

/-- What number constants have in front of the point, and behind it. -/
def digitRun : Pattern := .concat (.one digits) (.many (.one digits))

/-- What number constants may have behind their first run of digits. -/
def fraction : Pattern :=
  .concat (.either (.concat (.one (.only '.')) (.concat digitRun .empty)) .empty) .empty

/-- The pattern of number constants. -/
def numberPattern : Pattern := .concat digitRun fraction

/-- What string constants have between their quotes, again and again. -/
def quotedPart : Pattern :=
  .either (.concat (.one unquoted) .empty)
    (.concat (.one (.only '\\')) (.concat (.one .ofLine) .empty))

/-- The pattern of string constants. -/
def stringPattern : Pattern :=
  .concat (.one (.only '"')) (.concat (.many quotedPart) (.concat (.one (.only '"')) .empty))

theorem declaredPattern?_identifier : declaredPattern? .identifier = some identifierPattern := by
  rw [declaredPattern?_eq]
  decide +kernel

theorem declaredPattern?_numberLiteral : declaredPattern? .numberLiteral = some numberPattern := by
  rw [declaredPattern?_eq]
  decide +kernel

theorem declaredPattern?_stringLiteral : declaredPattern? .stringLiteral = some stringPattern := by
  rw [declaredPattern?_eq]
  decide +kernel

end BlockLang
