import BlockLang.Grammar.Reader
import Mathlib.Data.List.Basic

/-!
# Scans of a grammar file

A grammar file is gone through many times over: for block comments, for line comments, for the
opening of a block and for its end. Each of these scans goes from character to character, and takes
notice of a few signs only. So there are stretches of text that a scan passes: it goes on behind
them as it does at the front of a text. Plain stretches are passed by every scan; the others are
passed by a scan for a reason of its own, such as a quoted run by the one for the end of a block.

## Main definitions

* `isPlain c`: no scan takes notice of the character
* `Scan`, `Scan.Passes stretch`: a way to go through a text, and the stretches that it passes
* `Spacing`: the blanks of a block
* `Spacing.listed items`, `Spacing.braced name body`: lists and blocks as they are written
* `blockComments`, `lineComments`, `bodies`, `openings name`: the scans

## Main results

* `Scan.passes_listed`, `Scan.passes_braced`: a list or a block is passed with its parts
* `Scan.MindsOnly.passes_of_not_infix`: a stretch is passed that has no opening sign of a comment
* `passes_quoted`, `passes_braced`: the scan for the end of a block passes quoted runs and blocks
* `block?_braced`: a block is found where it was written
-/

namespace BlockLang.Grammar

open Text

variable {α β : Type} {c mark : Char} {cs run body : List Char}

/-! ## Plain characters -/

/-- The signs that some scan takes notice of. -/
def signs : List Char := ['(', '-', '"', '/', '{', '}', '@']

/-- No scan takes notice of the character. -/
def isPlain (c : Char) : Bool := c ∉ signs

theorem isPlain_of_class {p : Char → Bool} (others : signs.all fun d => !p d) (h : p c) :
    isPlain c := by
  simp only [isPlain, decide_eq_true_eq]
  intro sign
  have := List.all_eq_true.mp others c sign
  simp [h] at this

theorem isPlain_of_isBlank (h : isBlank c) : isPlain c :=
  isPlain_of_class rfl h

theorem isPlain_of_isWordChar (h : isWordChar c) : isPlain c :=
  isPlain_of_class rfl h

/-! ## Stretches that a scan passes -/

/-- A way to go through a text: what it makes of the text, and what each character adds to what it
makes of the rest. Plain characters are added, whatever follows. -/
structure Scan (β : Type) where
  run : List Char → β
  put : Char → β → β
  run_cons : ∀ {c : Char}, isPlain c → ∀ cs, run (c :: cs) = put c (run cs)

namespace Scan

variable {s : Scan β} {stretch more : List Char}

/-- In front of any text, the characters of the stretch are added to what the scan makes of it. -/
def Passes (s : Scan β) (stretch : List Char) : Prop :=
  ∀ cs, s.run (stretch ++ cs) = stretch.foldr s.put (s.run cs)

theorem passes_nil (s : Scan β) : s.Passes [] := fun _ => rfl

theorem Passes.append (h : s.Passes stretch) (hm : s.Passes more) : s.Passes (stretch ++ more) := by
  intro cs
  rw [List.append_assoc, h, hm, List.foldr_append]

/-- A stretch is passed if its characters are, one by one. -/
theorem passes_of_forall (h : ∀ c ∈ stretch, s.Passes [c]) : s.Passes stretch := by
  induction stretch with
  | nil => exact s.passes_nil
  | cons c stretch ih =>
    exact (h c List.mem_cons_self).append (ih fun d hd => h d (List.mem_cons_of_mem c hd))

theorem passes_flatMap {f : α → List Char} {l : List α} (h : ∀ a ∈ l, s.Passes (f a)) :
    s.Passes (l.flatMap f) := by
  induction l with
  | nil => exact s.passes_nil
  | cons a l ih =>
    rw [List.flatMap_cons]
    exact (h a List.mem_cons_self).append (ih fun b hb => h b (List.mem_cons_of_mem a hb))

/-- Every scan passes plain stretches. -/
theorem passes_plain (s : Scan β) (h : stretch.all isPlain) : s.Passes stretch :=
  passes_of_forall fun c hc => s.run_cons (List.all_eq_true.mp h c hc)

end Scan

/-! ## Lists and blocks -/

/-- A run of blanks. -/
structure Blanks where
  chars : List Char
  blank : ∀ c ∈ chars, isBlank c

/-- Blanks that keep two items apart. -/
structure Gap extends Blanks where
  nonempty : chars ≠ []

/-- The blanks of a block: in front of its braces, inside them at both ends, and behind each item
but the last. -/
structure Spacing where
  brace : Blanks
  front : Blanks
  back : Blanks
  gap : Nat → Gap

/-- Items with gaps between them. -/
def joined (gap : Nat → Gap) : List (List Char) → List Char
  | [] => []
  | [item] => item
  | item :: other :: items =>
    item ++ ((gap 0).chars ++ joined (fun n => gap (n + 1)) (other :: items))

/-- The body of a block that lists some items. -/
def Spacing.listed (spacing : Spacing) (items : List (List Char)) : List Char :=
  spacing.front.chars ++ (joined spacing.gap items ++ spacing.back.chars)

/-- What a block begins with: a marker, which is the name behind an at sign, and a brace. -/
def Spacing.opening (spacing : Spacing) (name : List Char) : List Char :=
  '@' :: name ++ spacing.brace.chars ++ ['{']

/-- A block as it is written. -/
def Spacing.braced (spacing : Spacing) (name body : List Char) : List Char :=
  spacing.opening name ++ (body ++ ['}'])

section Lists

variable {s : Scan β} {spacing : Spacing} {gap : Nat → Gap} {items before after : List (List Char)}

theorem Scan.passes_blanks (s : Scan β) (blanks : Blanks) : s.Passes blanks.chars :=
  s.passes_plain (List.all_eq_true.mpr fun c hc => isPlain_of_isBlank (blanks.blank c hc))

theorem Scan.passes_joined (h : ∀ item ∈ items, s.Passes item) : s.Passes (joined gap items) := by
  fun_induction joined gap items with
  | case1 => exact s.passes_nil
  | case2 gap item => exact h item List.mem_cons_self
  | case3 gap item other items ih =>
    have later := ih fun i hi => h i (List.mem_cons_of_mem item hi)
    exact (h item List.mem_cons_self).append ((s.passes_blanks (gap 0).toBlanks).append later)

/-- A list is passed with its items. -/
theorem Scan.passes_listed (h : ∀ item ∈ items, s.Passes item) : s.Passes (spacing.listed items) :=
  (s.passes_blanks spacing.front).append ((s.passes_joined h).append (s.passes_blanks spacing.back))

/-- A block is passed with its marker and its body in braces. -/
theorem Scan.passes_braced {name : List Char} (hm : s.Passes ('@' :: name))
    (hb : s.Passes ('{' :: (body ++ ['}']))) : s.Passes (spacing.braced name body) := by
  have passed := (hm.append (s.passes_blanks spacing.brace)).append hb
  simpa only [Spacing.braced, Spacing.opening, List.append_assoc, List.singleton_append] using passed

/-- A scan that passes the items of a list up to some item passes what stands before that one. -/
theorem exists_joined_eq (gap : Nat → Gap) (h : ∀ item ∈ before, s.Passes item) (item : List Char)
    (after : List (List Char)) :
    ∃ front rest, joined gap (before ++ item :: after) = front ++ item ++ rest ∧
      s.Passes front := by
  induction before generalizing gap with
  | nil =>
    cases after with
    | nil => exact ⟨[], [], by simp [joined], s.passes_nil⟩
    | cons other after => exact ⟨[], _, rfl, s.passes_nil⟩
  | cons first before ih =>
    obtain ⟨front, rest, split, passed⟩ :=
      ih (fun n => gap (n + 1)) fun b hb => h b (List.mem_cons_of_mem first hb)
    obtain ⟨second, others, later⟩ :=
      List.exists_cons_of_ne_nil (l := before ++ item :: after) (by simp)
    -- What follows is not empty, so a gap stands behind the first item.
    have gone := (h first List.mem_cons_self).append (s.passes_blanks (gap 0).toBlanks)
    refine ⟨first ++ (gap 0).chars ++ front, rest, ?_, gone.append passed⟩
    rw [List.cons_append, later, joined, ← later, split]
    simp only [List.append_assoc]

theorem exists_listed_eq (h : ∀ item ∈ before, s.Passes item) (item : List Char)
    (after : List (List Char)) :
    ∃ front rest, spacing.listed (before ++ item :: after) = front ++ item ++ rest ∧
      s.Passes front := by
  obtain ⟨front, rest, split, passed⟩ := exists_joined_eq spacing.gap h item after
  refine ⟨spacing.front.chars ++ front, rest ++ spacing.back.chars, ?_,
    (s.passes_blanks spacing.front).append passed⟩
  rw [Spacing.listed, split]
  simp only [List.append_assoc]

end Lists

/-! ## Comments -/

theorem dropBlockComments_cons (h : ¬ (c = '(' ∧ cs.head? = some '*')) :
    dropBlockComments .outside (c :: cs) = c :: dropBlockComments .outside cs := by
  have : (c == '(' && cs.head? == some '*') = false := by simpa using h
  simp [dropBlockComments, this]

theorem dropLineComments_cons (h : ¬ (c = '-' ∧ cs.head? = some '-')) :
    dropLineComments false (c :: cs) = c :: dropLineComments false cs := by
  have : (c == '-' && cs.head? == some '-') = false := by simpa using h
  simp [dropLineComments, this]

/-- The scan that leaves block comments out. -/
def blockComments : Scan (List Char) where
  run := dropBlockComments .outside
  put := List.cons
  run_cons h cs := dropBlockComments_cons fun sign => by
    obtain rfl := sign.1
    cases h

/-- The scan that leaves line comments out. -/
def lineComments : Scan (List Char) where
  run := dropLineComments false
  put := List.cons
  run_cons h cs := dropLineComments_cons fun sign => by
    obtain rfl := sign.1
    cases h

/-- The scan takes notice of a character only where it makes a sign with the next one. -/
def Scan.MindsOnly (s : Scan β) (first second : Char) : Prop :=
  ∀ c cs, ¬ (c = first ∧ cs.head? = some second) → s.run (c :: cs) = s.put c (s.run cs)

theorem mindsOnly_blockComments : blockComments.MindsOnly '(' '*' :=
  fun _ _ => dropBlockComments_cons

theorem mindsOnly_lineComments : lineComments.MindsOnly '-' '-' :=
  fun _ _ => dropLineComments_cons

theorem Scan.MindsOnly.passes_singleton {s : Scan β} {first second : Char}
    (h : s.MindsOnly first second) (hc : c ≠ first) : s.Passes [c] :=
  fun cs => h c cs fun sign => hc sign.1

/-- A stretch is passed that has no opening sign of a comment, if the character behind it is not
part of one. -/
theorem Scan.MindsOnly.passes_of_not_infix {s : Scan β} {first second : Char}
    (h : s.MindsOnly first second) (apart : ¬ [first, second] <:+: run) (hf : mark ≠ first)
    (hs : mark ≠ second) : s.Passes (run ++ [mark]) := by
  -- Induction on the stretch: the scan passes a character by what the next one is.
  induction run with
  | nil => exact h.passes_singleton hf
  | cons c run ih =>
    rw [List.infix_cons_iff, not_or] at apart
    intro cs
    rw [List.cons_append, List.cons_append, h c, ih apart.2 cs, List.foldr_cons]
    rintro ⟨rfl, next⟩
    -- The next character belongs to the run or is the one behind it.
    cases run with
    | nil => exact hs (Option.some.inj next)
    | cons d run =>
      obtain rfl := Option.some.inj next
      exact apart.1 ⟨run, rfl⟩

/-- Between two marks that are not part of an opening sign, a run without one is passed. -/
theorem Scan.MindsOnly.passes_between {s : Scan β} {first second : Char}
    (h : s.MindsOnly first second) (apart : ¬ [first, second] <:+: run) (hf : mark ≠ first)
    (hs : mark ≠ second) : s.Passes (mark :: (run ++ [mark])) :=
  (h.passes_singleton hf).append (h.passes_of_not_infix apart hf hs)

theorem Scan.Passes.run_eq {s : Scan (List Char)} (h : s.Passes cs) (put : s.put = List.cons)
    (nil : s.run [] = []) : s.run cs = cs := by
  have := h []
  rwa [List.append_nil, put, nil, List.foldr_cons_nil] at this

/-- A text that is passed has no block comments. -/
theorem withoutBlockComments_eq_self_of_passes (h : blockComments.Passes cs) :
    withoutBlockComments cs = cs :=
  h.run_eq rfl rfl

/-- A text that is passed has no line comments. -/
theorem withoutLineComments_eq_self_of_passes (h : lineComments.Passes cs) :
    withoutLineComments cs = cs :=
  h.run_eq rfl rfl

/-! ## The end of a block -/

theorem splitBody_cons (h : c ∉ ['-', '"', '/', '{', '}']) (cs : List Char) (depth : Nat) :
    splitBody .plain depth (c :: cs) =
      (splitBody .plain depth cs).map fun split => (c :: split.1, split.2) := by
  simp only [List.mem_cons, List.not_mem_nil, or_false, not_or] at h
  simp [splitBody, h]

/-- The scan for the end of a block, at any depth of braces. -/
def bodies : Scan (Nat → Option (List Char × List Char)) where
  run cs depth := splitBody .plain depth cs
  put c further depth := (further depth).map fun split => (c :: split.1, split.2)
  run_cons {c} h cs := by
    have some : ['-', '"', '/', '{', '}'] ⊆ signs := by decide
    simp only [isPlain, decide_eq_true_eq] at h
    exact funext (splitBody_cons (fun sign => h (some sign)) cs)

theorem passes_bodies_singleton (h : c ∉ ['-', '"', '/', '{', '}']) : bodies.Passes [c] :=
  fun cs => funext (splitBody_cons h cs)

theorem foldr_bodies (further : Nat → Option (List Char × List Char)) (depth : Nat) :
    cs.foldr bodies.put further depth =
      (further depth).map fun split => (cs ++ split.1, split.2) := by
  induction cs with
  | nil => simp
  | cons c cs ih =>
    simp only [List.foldr_cons, bodies] at ih ⊢
    rw [ih, Option.map_map]
    rfl

/-- A block ends behind a stretch that is passed. -/
theorem splitBody_of_passes (h : bodies.Passes body) (rest : List Char) :
    splitBody .plain 0 (body ++ '}' :: rest) = some (body, '}' :: rest) := by
  have := congrFun (h ('}' :: rest)) 0
  rw [foldr_bodies] at this
  simpa [bodies, splitBody] using this

/-- The scan for the end of a block passes blocks inside it. -/
theorem passes_braces (h : bodies.Passes body) : bodies.Passes ('{' :: (body ++ ['}'])) := by
  intro cs
  funext depth
  -- Inside, one brace more is open; the closing one is not the end.
  have inside := congrFun (h ('}' :: cs)) (depth + 1)
  rw [foldr_bodies] at inside ⊢
  simp only [bodies, List.cons_append, List.append_assoc, List.nil_append] at inside ⊢
  simp [splitBody, inside, Function.comp_def]

/-- What may stand between two marks that set off a quoted run: a backslash takes the next character
with it. -/
def isQuotedRun (mark : Char) : List Char → Bool
  | [] => true
  | '\\' :: _ :: cs => isQuotedRun mark cs
  | c :: cs => c != mark && c != '\\' && isQuotedRun mark cs

theorem splitBody_quoted (h : isQuotedRun mark run) (hm : '\\' ≠ mark) (depth : Nat) :
    splitBody (.quoted mark) depth (run ++ mark :: cs) =
      (splitBody .plain depth cs).map fun split => (run ++ mark :: split.1, split.2) := by
  fun_induction isQuotedRun mark run with
  | case1 => simp [splitBody]
  | case2 d run ih => simp [splitBody, hm, ih h, Function.comp_def]
  | case3 c run other ih =>
    simp only [Bool.and_eq_true, bne_iff_ne] at h
    simp [splitBody, h.1.1, h.1.2, ih h.2, Function.comp_def]

/-- The scan for the end of a block passes quoted runs. -/
theorem passes_quoted (h : isQuotedRun mark run) (hm : mark = '"' ∨ mark = '/') :
    bodies.Passes (mark :: (run ++ [mark])) := by
  have other : '-' ≠ mark ∧ '\\' ≠ mark := by rcases hm with rfl | rfl <;> decide
  intro cs
  funext depth
  rw [foldr_bodies]
  simp only [bodies, List.cons_append, List.append_assoc, List.nil_append]
  simp [splitBody, hm, Ne.symm other.1, splitBody_quoted h other.2, Function.comp_def]

/-! ## The opening of a block -/

/-- What stands behind a marker, blanks and a brace. -/
theorem afterOpening?_eq_some_iff {marker rest : List Char} : afterOpening? marker cs = some rest ↔
    ∃ blanks, (∀ c ∈ blanks, isBlank c) ∧ cs = marker ++ (blanks ++ '{' :: rest) := by
  constructor
  · intro h
    unfold afterOpening? at h
    split at h
    · next front =>
      split at h
      · next rest' heq =>
        obtain rfl := Option.some.inj h
        obtain ⟨behind, rfl⟩ := List.isPrefixOf_iff_prefix.mp front
        rw [List.drop_left] at heq
        refine ⟨behind.takeWhile isBlank, List.all_eq_true.mp List.all_takeWhile, ?_⟩
        rw [← heq, List.takeWhile_append_dropWhile]
      · cases h
    · cases h
  · rintro ⟨blanks, blank, rfl⟩
    have stops : (blanks ++ '{' :: rest).dropWhile isBlank = '{' :: rest := by
      rw [List.dropWhile_append_of_pos blank, List.dropWhile_cons_of_neg (by decide)]
    simp only [afterOpening?, List.isPrefixOf_iff_prefix, List.prefix_append, if_true,
      List.drop_left, stops]

theorem findOpening?_cons {marker : List Char} (h : ¬ marker <+: c :: cs) :
    findOpening? marker (c :: cs) =
      (findOpening? marker cs).map fun split => (c :: split.1, split.2) := by
  have none : afterOpening? marker (c :: cs) = none := by
    simp only [afterOpening?, List.isPrefixOf_iff_prefix, if_neg h]
  rw [findOpening?, none]

/-- The scan for the block of a marker, which begins with an at sign. -/
def openings (name : List Char) : Scan (Option (List Char × List Char)) where
  run := findOpening? ('@' :: name)
  put c := Option.map fun split => (c :: split.1, split.2)
  run_cons {c} h cs := by
    refine findOpening?_cons fun front => ?_
    obtain rfl := (List.cons_prefix_cons.mp front).1
    cases h

variable {name : List Char}

theorem passes_openings_singleton (hc : c ≠ '@') : (openings name).Passes [c] :=
  fun _ => findOpening?_cons fun front => hc (List.cons_prefix_cons.mp front).1.symm

/-- The scan for one marker passes the others. -/
theorem passes_other_marker {other : List Char} (plain : other.all isPlain)
    (apart : ∀ cs, name.isPrefixOf (other ++ cs) = false) :
    (openings name).Passes ('@' :: other) := by
  intro cs
  rw [List.cons_append, List.foldr_cons, ← (openings name).passes_plain plain cs]
  refine findOpening?_cons fun front => ?_
  have := List.isPrefixOf_iff_prefix.mpr (List.cons_prefix_cons.mp front).2
  simp [apart cs] at this

theorem foldr_openings (further : Option (List Char × List Char)) :
    cs.foldr (openings name).put further =
      further.map fun split => (cs ++ split.1, split.2) := by
  induction cs with
  | nil => simp
  | cons c cs ih =>
    simp only [List.foldr_cons, openings] at ih ⊢
    rw [ih, Option.map_map]
    rfl

/-- A block is opened where its marker stands. -/
theorem findOpening?_opening (spacing : Spacing) (rest : List Char) :
    findOpening? ('@' :: name) (spacing.opening name ++ rest) =
      some (spacing.opening name, rest) := by
  obtain ⟨⟨blanks, blank⟩, -, -, -⟩ := spacing
  have split : '@' :: (name ++ (blanks ++ '{' :: rest)) =
      '@' :: (name ++ (blanks ++ ['{'])) ++ rest := by
    simp
  have after : afterOpening? ('@' :: name) ('@' :: (name ++ (blanks ++ '{' :: rest))) =
      some rest :=
    afterOpening?_eq_some_iff.mpr ⟨blanks, blank, rfl⟩
  simp only [Spacing.opening, List.cons_append, List.append_assoc, List.nil_append, findOpening?,
    after]
  rw [split, List.length_append, Nat.add_sub_cancel, List.take_left]

/-- A block is found where it was written, if nothing before it is taken for its opening. -/
theorem block?_braced {marker : String} (hm : marker.toList = '@' :: name) {front rest : List Char}
    {spacing : Spacing} (hf : (openings name).Passes front) (hb : bodies.Passes body) :
    block? marker (front ++ spacing.braced name body ++ rest) =
      some ⟨front ++ spacing.opening name, body, '}' :: rest⟩ := by
  have found : findOpening? marker.toList (front ++ spacing.braced name body ++ rest) =
      some (front ++ spacing.opening name, body ++ '}' :: rest) := by
    have opened := hf (spacing.opening name ++ (body ++ '}' :: rest))
    rw [foldr_openings] at opened
    simpa [openings, findOpening?_opening, hm, Spacing.braced] using opened
  simp only [block?, found, splitBody_of_passes hb, Option.map_some]

end BlockLang.Grammar
