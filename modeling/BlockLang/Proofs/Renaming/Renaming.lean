import BlockLang.Proofs.Renaming.Mirror
import Mathlib.Logic.Equiv.Basic

/-!
# Names, layout and literals

Names matter only by being the same or not, and layout and the text of literals do not matter at
all. Two streams that differ in nothing else are analysed alike: step by step the analyses tell of
the same productions, of tokens at the same places and of the same types, and they end alike.

## Main definitions

* `Analysis.Alike r a a'`: the analyses are alike
* `Renaming.between name unique stream other`: the renaming from one stream to another

## Main results

* `mirrors_rule`: rules do alike if their parts do
* `mirrors_analyser`: productions do alike, under every limit
* `analysis_respects_renaming`: streams that differ in names, literals and layout alone are analysed
  alike
-/

namespace BlockLang

open Analyser

variable {r : Renaming} {call : Callee}

/-- The productions do alike. -/
structure MirrorParts (r : Renaming) (call : Callee) : Prop where
  plain : ∀ c, c.production ≠ .expression → Mirrors r Eq (call c) (call c)
  expression : ∀ {join join'}, JoinsAlike r join join' →
    Mirrors r Eq (call (.expression join)) (call (.expression join'))

/-- An assignment declares a variable of the same type. -/
theorem mirrors_assignment (parts : MirrorParts r call) :
    Mirrors r Eq (rule call .assignmentStatement) (rule call .assignmentStatement) := by
  refine (mirrors_accept _).bind fun target target' ht => (mirrors_expect _).andThen fun _ =>
    mirrors_lookahead.bind fun first first' hf => ?_
  obtain ⟨ht, type_eq⟩ := ht
  have declared (τ : ValueType) : Mirrors r Eq (declare ⟨target.value, τ, target.position⟩)
      (declare ⟨target'.value, τ, target'.position⟩) :=
    mirrors_declare ⟨ht.renamed.named type_eq, rfl, target, target', ht, rfl, rfl⟩
  rw [hf.type_eq]
  split
  · exact mirrors_beginChain.andThen fun _ => (parts.expression .none).andThen fun _ =>
      (mirrors_pure rfl).andThen declared
  · split
    · exact (mirrors_expect _).andThen fun _ => (mirrors_pure rfl).andThen declared
    · exact (mirrors_reject _ fun _ _ => rfl).andThen declared

theorem mirrors_condition (parts : MirrorParts r call) :
    Mirrors r Eq (rule call .condition) (rule call .condition) := by
  refine mirrors_requireDeclared.andThen fun _ => (mirrors_expect _).andThen fun _ =>
    (parts.plain .conditionalOperator nofun).andThen fun _ =>
    mirrors_lookahead.bind fun operand operand' ho => ?_
  rw [ho.type_eq]
  split
  · exact mirrors_requireDeclared.andThen fun _ => mirrors_expect _
  · exact mirrors_expect _
  · exact mirrors_expect _
  · exact mirrors_reject _ fun _ _ => rfl

/-- A term checks its factors alike. -/
theorem mirrors_term (parts : MirrorParts r call) :
    Mirrors r Eq (rule call .term) (rule call .term) := by
  refine (mirrors_require _ fun _ _ => rfl).andThen fun _ =>
    (parts.plain .factor nofun).andThen fun left => (mirrors_lookingAt _).andThen fun more => ?_
  split
  · refine mirrors_lookahead.bind fun next next' hn => ?_
    rw [hn.type_eq]
    refine (mirrors_accept _).bind fun operator operator' ho =>
      mirrors_lookahead.bind fun operand operand' h => ?_
    rw [ho.1.type_eq]
    exact (mirrors_checkFactor _ _ _ h).andThen fun _ => (mirrors_typeOf h).andThen fun _ =>
      (mirrors_checkFactor _ _ _ h).andThen fun _ => (parts.plain .term nofun).andThen fun _ =>
      (mirrors_checkFactor _ _ _ h).andThen fun _ => mirrors_pure rfl
  · exact mirrors_pure rfl

/-- An expression checks its terms alike. -/
theorem mirrors_expression (parts : MirrorParts r call) {join join' : Option Join}
    (h : JoinsAlike r join join') :
    Mirrors r Eq (rule call (.expression join)) (rule call (.expression join')) := by
  refine mirrors_beginTerm.andThen fun _ => (mirrors_require _ fun _ _ => rfl).andThen fun _ =>
    (parts.plain .term nofun).andThen fun τ => (mirrors_recordTerm τ).andThen fun _ =>
    (mirrors_checkSum h).andThen fun _ => (mirrors_lookingAt _).andThen fun more => ?_
  split
  · refine mirrors_lookahead.bind fun next next' hn => ?_
    rw [hn.type_eq]
    refine (mirrors_accept _).bind fun operator operator' ho =>
      mirrors_lookahead.bind fun operand operand' h => ?_
    have joins : JoinsAlike r (some ⟨operator.type, operand⟩) (some ⟨operator'.type, operand'⟩) :=
      .some ⟨ho.1.type_eq, h⟩
    exact (parts.expression joins).andThen fun _ => mirrors_pure rfl
  · exact mirrors_pure rfl

theorem mirrors_factor (parts : MirrorParts r call) :
    Mirrors r Eq (rule call .factor) (rule call .factor) := by
  refine mirrors_lookahead.bind fun t t' ht => ?_
  rw [ht.type_eq]
  split
  · exact mirrors_requireDeclared.andThen fun _ => (mirrors_expect _).andThen fun _ =>
      mirrors_pure rfl
  · exact (mirrors_expect _).andThen fun _ => mirrors_pure rfl
  · exact (mirrors_expect _).andThen fun _ => (parts.expression .none).inFreshChain.andThen fun _ =>
      (mirrors_expect _).andThen fun _ => mirrors_pure rfl
  · exact mirrors_reject _ fun _ _ => rfl

/-- Rules do alike if their parts do. -/
theorem mirrors_rule (parts : MirrorParts r call) (c : Call) (hc : c.production ≠ .expression) :
    Mirrors r Eq (rule call c) (rule call c) := by
  have plain := parts.plain
  -- The rules are read off move by move.
  cases c with
  | statementPart =>
    exact (mirrors_expect _).andThen fun _ => (plain .statementList nofun).andThen fun _ =>
      mirrors_expect _
  | statementList =>
    refine (plain .statement nofun).andThen fun _ => (mirrors_lookingAt _).andThen fun more => ?_
    split
    · refine (mirrors_expect _).andThen fun _ => (mirrors_lookingAt _).andThen fun again => ?_
      split
      · exact plain .statementList nofun
      · exact mirrors_pure rfl
    · exact mirrors_pure rfl
  | statement =>
    refine mirrors_lookahead.bind fun t t' ht => ?_
    rw [ht.type_eq]
    split
    · exact plain .assignmentStatement nofun
    · exact plain .ifStatement nofun
    · exact plain .whileStatement nofun
    · exact plain .procedureStatement nofun
    · exact plain .untilStatement nofun
    · exact (plain .forStatement nofun).inLoopScope
    · exact mirrors_reject _ fun _ _ => rfl
  | assignmentStatement => exact mirrors_assignment parts
  | ifStatement =>
    refine (mirrors_expect _).andThen fun _ => (plain .condition nofun).andThen fun _ =>
      (mirrors_expect _).andThen fun _ => (plain .statementList nofun).andThen fun _ =>
      mirrors_lookahead.bind fun t t' ht => ?_
    rw [ht.type_eq]
    split
    · exact (mirrors_expect _).andThen fun _ => mirrors_expect _
    · exact (mirrors_expect _).andThen fun _ => (plain .statementList nofun).andThen fun _ =>
        (mirrors_expect _).andThen fun _ => mirrors_expect _
    · exact mirrors_reject _ fun _ _ => rfl
  | whileStatement =>
    exact (mirrors_expect _).andThen fun _ => (plain .condition nofun).andThen fun _ =>
      (mirrors_expect _).andThen fun _ => (plain .statementList nofun).andThen fun _ =>
      (mirrors_expect _).andThen fun _ => mirrors_expect _
  | untilStatement =>
    exact (mirrors_expect _).andThen fun _ => (plain .statementList nofun).andThen fun _ =>
      (mirrors_expect _).andThen fun _ => plain .condition nofun
  | forStatement =>
    exact (mirrors_expect _).andThen fun _ => (mirrors_expect _).andThen fun _ =>
      (plain .assignmentStatement nofun).andThen fun _ => (mirrors_expect _).andThen fun _ =>
      (plain .condition nofun).andThen fun _ => (mirrors_expect _).andThen fun _ =>
      (plain .assignmentStatement nofun).andThen fun _ => (mirrors_expect _).andThen fun _ =>
      (mirrors_expect _).andThen fun _ => (plain .statementList nofun).andThen fun _ =>
      (mirrors_expect _).andThen fun _ => mirrors_expect _
  | procedureStatement =>
    exact (mirrors_expect _).andThen fun _ => (mirrors_expect _).andThen fun _ =>
      (mirrors_expect _).andThen fun _ => (plain .argumentList nofun).andThen fun _ =>
      mirrors_expect _
  | argumentList =>
    refine mirrors_requireDeclared.andThen fun _ => (mirrors_expect _).andThen fun _ =>
      (mirrors_lookingAt _).andThen fun more => ?_
    split
    · exact (mirrors_expect _).andThen fun _ => plain .argumentList nofun
    · exact mirrors_pure rfl
  | condition => exact mirrors_condition parts
  | conditionalOperator =>
    refine (mirrors_require _ fun _ _ => rfl).andThen fun _ =>
      mirrors_lookahead.bind fun t t' ht => ?_
    rw [ht.type_eq]
    exact mirrors_expect _
  | expression join => exact absurd rfl hc
  | term => exact mirrors_term parts
  | factor => exact mirrors_factor parts

/-- Productions do alike, under every limit. -/
theorem mirrors_analyser (r : Renaming) (limit : Nat) : MirrorParts r (analyser limit) := by
  induction limit with
  | zero =>
    have tooDeep {α : Type} : Mirrors r Eq (throw .tooDeep : Analyser α) (throw .tooDeep) :=
      fun _ _ hs => .error .tooDeep hs
    exact ⟨fun _ _ => tooDeep, fun _ => tooDeep⟩
  | succ limit ih =>
    exact ⟨fun c hc => (mirrors_rule ih c hc).within c.production,
      fun h => (mirrors_expression ih h).within .expression⟩

/-- So do programs. -/
theorem mirrors_program (r : Renaming) (limit : Nat) :
    Mirrors r Eq (program limit) (program limit) :=
  ((mirrors_analyser r limit).plain .statementPart nofun).andThen fun _ =>
    mirrors_require _ fun _ _ => rfl

/-! ## Analyses -/

/-- The analyses end for one reason or both without one, they tell alike, and they leave behind
what is alike. -/
structure Analysis.Alike (r : Renaming) (a a' : Analysis Unit) : Prop where
  outcome : (a.outcome = .ok () ∧ a'.outcome = .ok ()) ∨
    ∃ e e', a.outcome = .error e ∧ a'.outcome = .error e' ∧ e.Alike r e'
  lookahead : Option.Rel (Token.Alike r) a.lookahead a'.lookahead
  scopes : a.scopes.Alike r a'.scopes
  chain_eq : a'.chain = a.chain
  events : List.Forall₂ (Event.Alike r) a.events.toList a'.events.toList
  notices_eq : a'.notices = a.notices

/-- Names correspond as `name` says, and deliveries that stand at one place of the streams. -/
def Renaming.between (name : String → String → Prop) (unique : Relator.BiUnique name)
    (stream other : TokenStream) : Renaming where
  name := name
  place d d' := ∃ n, (stream.after n).pull.1 = d ∧ (other.after n).pull.1 = d'
  unique := unique

variable {name : String → String → Prop} {stream other : TokenStream}

/-- Streams whose items differ in names, literals and layout alone differ in no more at any
place. -/
theorem renamed_after (alike : List.Forall₂ (Delivery.Renamed name) stream.items other.items)
    (n : Nat) :
    Delivery.Renamed name (stream.after n).pull.1 (other.after n).pull.1 := by
  have rest := List.forall₂_drop n alike
  rw [← TokenStream.items_after, ← TokenStream.items_after] at rest
  generalize stream.after n = here, other.after n = there at rest ⊢
  unfold TokenStream.pull
  generalize here.items = items, there.items = items' at rest ⊢
  cases rest with
  | nil => exact .token ⟨rfl, nofun⟩
  | cons h _ => exact h

theorem streamsAlike_between (unique : Relator.BiUnique name)
    (alike : List.Forall₂ (Delivery.Renamed name) stream.items other.items) :
    stream.Alike (.between name unique stream other) other :=
  fun n => ⟨renamed_after alike n, n, rfl, rfl⟩

/-- Streams that are alike are analysed alike, under every limit. -/
theorem analyseWithin_alike (h : stream.Alike r other) (limit : Nat) :
    Analysis.Alike r (analyseWithin limit stream) (analyseWithin limit other) := by
  have pulled := h.pull
  rcases hp : stream.pull with ⟨d, input⟩
  rcases hp' : other.pull with ⟨d', input'⟩
  rw [hp, hp'] at pulled
  cases pulled with
  | error place _ =>
    rw [analyseWithin_of_error hp, analyseWithin_of_error hp']
    exact ⟨.inr ⟨_, _, rfl, rfl, .lexical place⟩, .none, .empty, rfl, .nil, rfl⟩
  | @token first first' _ _ alike later =>
    rw [analyseWithin_of_pull hp, analyseWithin_of_pull hp']
    have start : (AnalyserState.start first input).Alike r (.start first' input') :=
      ⟨alike, later, .empty, rfl, .nil, rfl⟩
    have run := mirrors_program r limit _ _ start
    generalize program limit (.start first input) = result,
      program limit (.start first' input') = result' at run ⊢
    cases run with
    | ok _ ht =>
      exact ⟨.inl ⟨rfl, rfl⟩, .some ht.lookahead, ht.scopes, ht.chain_eq, ht.trace, ht.notices_eq⟩
    | error he ht =>
      exact ⟨.inr ⟨_, _, rfl, rfl, he⟩, .some ht.lookahead, ht.scopes, ht.chain_eq, ht.trace,
        ht.notices_eq⟩

/-- Names, layout and the text of literals carry no other meaning: streams that differ in nothing
else, and whose names correspond one to one, are analysed alike, under every limit and without
one. -/
theorem analysis_respects_renaming (unique : Relator.BiUnique name)
    (alike : List.Forall₂ (Delivery.Renamed name) stream.items other.items) :
    (∀ limit, Analysis.Alike (.between name unique stream other)
      (analyseWithin limit stream) (analyseWithin limit other)) ∧
    Analysis.Alike (.between name unique stream other) (analyse stream) (analyse other) := by
  have within := analyseWithin_alike (streamsAlike_between unique alike)
  refine ⟨within, ?_⟩
  -- Streams of one length set one limit.
  rw [analyse, analyse, ← alike.length_eq]
  exact within _

/-- The token with another name, if it is one, and else without its text, and without its place in
the source. -/
def Token.renamedBy (ρ : String → String) (t : Token) : Token :=
  ⟨t.type, if t.type = .identifier then ρ t.value else "", Position.start⟩

theorem renamed_renamedBy (ρ : String → String) (ts : List Token) :
    List.Forall₂ (Delivery.Renamed fun x y => y = ρ x) (ts.map .ok)
      ((ts.map (Token.renamedBy ρ)).map .ok) := by
  rw [List.map_map, List.forall₂_map_left_iff, List.forall₂_map_right_iff, List.forall₂_same]
  exact fun t _ => .token ⟨rfl, fun h => if_pos h⟩

/-- A sum of a string and a number, the string under two names. -/
def mixing : List Token :=
  [⟨.beginKeyword, "begin", ⟨1, 1⟩⟩, ⟨.identifier, "x", ⟨1, 7⟩⟩, ⟨.colonEqual, ":=", ⟨1, 9⟩⟩,
    ⟨.stringLiteral, "a", ⟨1, 12⟩⟩, ⟨.semicolon, ";", ⟨1, 15⟩⟩, ⟨.identifier, "y", ⟨1, 17⟩⟩,
    ⟨.colonEqual, ":=", ⟨1, 19⟩⟩, ⟨.identifier, "x", ⟨1, 22⟩⟩, ⟨.plus, "+", ⟨1, 24⟩⟩,
    ⟨.numberLiteral, "1", ⟨1, 26⟩⟩, ⟨.endKeyword, "end", ⟨1, 28⟩⟩]

/-- The names change places. -/
theorem analysis_respects_renaming_mixing :
    let ρ := Equiv.swap "x" "y"
    let stream := TokenStream.ofList (mixing.map .ok)
    let other := TokenStream.ofList ((mixing.map (Token.renamedBy ρ)).map .ok)
    ∃ unique : Relator.BiUnique fun x y => y = ρ x,
      List.Forall₂ (Delivery.Renamed fun x y => y = ρ x) stream.items other.items ∧
      (∀ limit, Analysis.Alike (.between _ unique stream other)
        (analyseWithin limit stream) (analyseWithin limit other)) ∧
      Analysis.Alike (.between _ unique stream other) (analyse stream) (analyse other) := by
  intro ρ stream other
  have unique : Relator.BiUnique fun x y => y = ρ x :=
    ⟨fun _ _ _ hx hy => ρ.injective (hx.symm.trans hy), fun _ _ _ hx hy => hx.trans hy.symm⟩
  have alike := renamed_renamedBy ρ mixing
  exact ⟨unique, alike, analysis_respects_renaming unique alike⟩

end BlockLang
