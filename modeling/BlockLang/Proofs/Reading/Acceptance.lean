import BlockLang.Proofs.Grammar.Spelling
import BlockLang.Proofs.Reading.Statements

/-!
# Acceptance

A program is accepted just when its tokens have a derivation that can be walked: every identifier
that stands for a value is visible when it is reached, and every expression has a type. The global
scope then holds what the walk declared globally.

## Main results

* `walks_program`: a program is read as a derivation of its tokens is walked
* `accepted_iff_walk`: what is accepted, and what the scopes hold then
-/

namespace BlockLang

open Analyser

variable {limit : Nat} {stream : TokenStream} {first eof : Token} {input rest : TokenStream}
  {w : List Token} {d : Tree}

/-- A program is read as a derivation of its tokens is walked. -/
theorem walks_program (derives : d.Derives .statementPart w) (high : d.height ≤ limit)
    (passes : Passes (first, input) w (eof, rest)) (ends : eof.type = .endOfFile) :
    Walks (program limit) (d.walk .statementPart .empty) (eof, rest) (.start first input) := by
  obtain ⟨derived, hs, rfl⟩ := derives
  have stands : Stands (.start first input) .empty d.yield (eof, rest) :=
    ⟨passes, rfl, Declarations.known_empty⟩
  -- The first production is walked as a whole, and then the file has to end.
  have part := derived.legible high .statementPart rfl hs stands rfl
  have whole : d.inside .empty = d.walk .statementPart .empty :=
    Tree.inside_eq_walk hs (by decide)
  rw [whole] at part
  refine ensures_bind.mpr (part.answer fun _ t ht => ensures_require.mpr ?_)
  obtain ⟨δ, hδ, ht⟩ := ht
  have la : t.lookahead = eof := congrArg Prod.fst ht.place_eq
  rw [if_pos (by simp [la, ends])]
  exact ⟨δ, hδ, ht⟩

/-- No derivation of what a stream delivers is higher than the limit of its analysis. -/
theorem height_le_limit (derives : d.Derives .statementPart w)
    (proper : ∀ t ∈ w, t.type ≠ .endOfFile)
    (delivers : stream.front (w.length + 1) = (w ++ [eof]).map .ok) :
    d.height ≤ 3 * stream.items.length + 1 := by
  have height_le := derives.derived.height_le derives.symbol_eq
  have length_le := TokenStream.length_le_of_front proper (by simpa using delivers)
  rw [derives.yield_eq] at height_le
  simp only [Production.rank] at height_le
  omega

/-- What is accepted is a program. -/
theorem isProgram_of_accepted (accepted : (analyse stream).outcome = .ok ())
    (proper : ∀ t ∈ w, t.type ≠ .endOfFile) (ends : eof.type = .endOfFile)
    (delivers : stream.front (w.length + 1) = (w ++ [eof]).map .ok) : IsProgram w := by
  obtain ⟨first, input, t, pulled, run, -⟩ := exists_run_of_ok accepted
  obtain ⟨part, last⟩ := program_eq_ok_iff.mp run
  obtain ⟨d, ⟨derived, hs, -⟩, -, passes⟩ := exists_derivation part
  -- The run took the tokens of `d`, the stream delivers `w`, and both end where the file does.
  obtain ⟨first', input', pulled', rest, passes'⟩ := exists_passes_of_front delivers
  obtain ⟨hf, rfl⟩ := Prod.mk.inj (pulled.symm.trans pulled')
  cases hf
  have proper' := derived.type_ne_endOfFile (by simp [hs])
  exact ⟨d, derived, hs, passes.unique passes' proper' proper last ends⟩

/-- An analysis is without fault just when the walk ends, and then its scopes hold what was
declared. -/
theorem analyse_of_derives (derives : d.Derives .statementPart w)
    (proper : ∀ t ∈ w, t.type ≠ .endOfFile) (ends : eof.type = .endOfFile)
    (delivers : stream.front (w.length + 1) = (w ++ [eof]).map .ok) :
    (∀ δ, d.walk .statementPart .empty = some δ → (analyse stream).outcome = .ok () ∧
        (analyse stream).scopes = ⟨⟨summary δ.globals⟩, []⟩) ∧
      (d.walk .statementPart .empty = none → (analyse stream).outcome ≠ .ok ()) := by
  obtain ⟨first, input, pulled, rest, passes⟩ := exists_passes_of_front delivers
  have walks := walks_program derives (height_le_limit derives proper delivers) passes ends
  rw [analyse, analyseWithin_of_pull pulled]
  cases hm : program (3 * stream.items.length + 1) (.start first input) with
  | ok a t =>
    obtain ⟨ε, hε, ht⟩ := walks.of_ok hm
    have depth_eq : ε.depth = 0 := derives.derived.depth_walk hε
    have scopes_eq : t.scopes = ⟨⟨summary ε.globals⟩, []⟩ := by
      rw [ht.scopes_eq, Declarations.scopes_of_depth depth_eq]
    constructor
    · intro δ hδ
      cases hδ.symm.trans hε
      exact ⟨rfl, scopes_eq⟩
    · intro none
      cases none.symm.trans hε
  | error stop t =>
    have walk_eq : d.walk .statementPart .empty = none := walks.of_error hm
    constructor
    · intro δ hδ
      cases hδ.symm.trans walk_eq
    · intro _ outcome
      cases outcome

/-- A program is accepted just when its tokens have a derivation that can be walked. The global
scope then holds the latest declaration of each variable that the walk declares globally, in the
order of the first ones, and no loop is open. -/
theorem accepted_iff_walk (proper : ∀ t ∈ w, t.type ≠ .endOfFile) (ends : eof.type = .endOfFile)
    (delivers : stream.front (w.length + 1) = (w ++ [eof]).map .ok) :
    ((analyse stream).outcome = .ok () ↔
      ∃ (d : Tree) (δ : Declarations), d.Derives .statementPart w ∧
        d.walk .statementPart .empty = some δ) ∧
    ((analyse stream).outcome = .ok () → ∀ d : Tree, d.Derives .statementPart w →
      ∃ δ, d.walk .statementPart .empty = some δ ∧
        (analyse stream).scopes = ⟨⟨summary δ.globals⟩, []⟩) := by
  -- The analysis does not depend on the derivation, so every derivation can be walked if one can.
  have walked (accepted : (analyse stream).outcome = .ok ()) (d : Tree)
      (derives : d.Derives .statementPart w) :
      ∃ δ, d.walk .statementPart .empty = some δ ∧
        (analyse stream).scopes = ⟨⟨summary δ.globals⟩, []⟩ := by
    have told := analyse_of_derives derives proper ends delivers
    cases hδ : d.walk .statementPart .empty with
    | some δ => exact ⟨δ, rfl, (told.1 δ hδ).2⟩
    | none => exact absurd accepted (told.2 hδ)
  refine ⟨⟨fun accepted => ?_, fun hd => ?_⟩, walked⟩
  · obtain ⟨d, derives⟩ := isProgram_of_accepted accepted proper ends delivers
    obtain ⟨δ, hδ, -⟩ := walked accepted d derives
    exact ⟨d, δ, derives, hδ⟩
  · obtain ⟨d, δ, derives, hδ⟩ := hd
    exact ((analyse_of_derives derives proper ends delivers).1 δ hδ).1

/-- A program with a loop that declares variables of its own. -/
def counting : List Token :=
  [⟨.beginKeyword, "begin", ⟨1, 1⟩⟩, ⟨.identifier, "x", ⟨1, 7⟩⟩, ⟨.colonEqual, ":=", ⟨1, 9⟩⟩,
    ⟨.numberLiteral, "1", ⟨1, 12⟩⟩, ⟨.semicolon, ";", ⟨1, 13⟩⟩,
    ⟨.forKeyword, "for", ⟨2, 1⟩⟩, ⟨.leftParen, "(", ⟨2, 5⟩⟩,
    ⟨.identifier, "i", ⟨2, 6⟩⟩, ⟨.colonEqual, ":=", ⟨2, 8⟩⟩, ⟨.identifier, "x", ⟨2, 11⟩⟩,
    ⟨.semicolon, ";", ⟨2, 12⟩⟩, ⟨.identifier, "i", ⟨2, 14⟩⟩, ⟨.less, "<", ⟨2, 16⟩⟩,
    ⟨.numberLiteral, "9", ⟨2, 18⟩⟩, ⟨.semicolon, ";", ⟨2, 19⟩⟩,
    ⟨.identifier, "i", ⟨2, 21⟩⟩, ⟨.colonEqual, ":=", ⟨2, 23⟩⟩, ⟨.identifier, "i", ⟨2, 26⟩⟩,
    ⟨.plus, "+", ⟨2, 28⟩⟩, ⟨.identifier, "x", ⟨2, 30⟩⟩, ⟨.rightParen, ")", ⟨2, 31⟩⟩,
    ⟨.doKeyword, "do", ⟨2, 33⟩⟩, ⟨.identifier, "y", ⟨3, 3⟩⟩, ⟨.colonEqual, ":=", ⟨3, 5⟩⟩,
    ⟨.identifier, "i", ⟨3, 8⟩⟩, ⟨.endKeyword, "end", ⟨4, 1⟩⟩, ⟨.loopKeyword, "loop", ⟨4, 5⟩⟩,
    ⟨.semicolon, ";", ⟨4, 9⟩⟩, ⟨.endKeyword, "end", ⟨5, 1⟩⟩]

/-- The stream of its tokens. -/
def countingStream : TokenStream := .ofList (counting.map .ok)

theorem accepted_iff_walk_counting :
    (∀ t ∈ counting, t.type ≠ .endOfFile) ∧ countingStream.endToken.type = .endOfFile ∧
    countingStream.front (counting.length + 1) =
      (counting ++ [countingStream.endToken]).map .ok ∧
    (analyse countingStream).outcome = .ok () ∧
    ((analyse countingStream).outcome = .ok () ↔
      ∃ (d : Tree) (δ : Declarations), d.Derives .statementPart counting ∧
        d.walk .statementPart .empty = some δ) ∧
    ((analyse countingStream).outcome = .ok () → ∀ d : Tree, d.Derives .statementPart counting →
      ∃ δ, d.walk .statementPart .empty = some δ ∧
        (analyse countingStream).scopes = ⟨⟨summary δ.globals⟩, []⟩) :=
  ⟨by decide, rfl, rfl, by decide +kernel, accepted_iff_walk (by decide) rfl rfl⟩

end BlockLang
