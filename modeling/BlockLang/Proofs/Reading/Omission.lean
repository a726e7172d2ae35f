import BlockLang.Proofs.Reading.Acceptance
import BlockLang.Proofs.Scoping.Footprint

/-!
# Programs without a loop

A loop leaves the scopes as they were, whether its statement answers or stops. So it can be taken
out of a program: what is left after a loop and a semicolon beside it are deleted from a statement
list is accepted as well, and the same variables are declared globally, as long as the list has
another statement.

## Main definitions

* `Tree.Lists d items`: the statements of a list and the semicolons between them
* `Tree.IsGap trees`: a loop with a semicolon before it or behind it
* `Tree.Omits d w`: the tokens of `d` without a loop in one of its statement lists

## Main results

* `Tree.Lists.exists_without`: a statement list without a loop is a statement list
* `Tree.Omits.exists_derived`: what is left has a derivation, which is walked to the same end
* `loop_leaves_no_footprint`: the scopes after a loop, and programs without a loop
-/

namespace BlockLang

open Analyser

namespace Tree

/-- The statements of a list, the semicolons between them, and one behind the last if there is
one. -/
inductive Lists : Tree → List Tree → Prop
  | last (s : Tree) : Lists (node .statementList [s]) [s]
  | ended (s semi : Tree) : Lists (node .statementList [s, semi]) [s, semi]
  | more (s semi : Tree) {rest : Tree} {items : List Tree} (h : Lists rest items) :
      Lists (node .statementList [s, semi, rest]) (s :: semi :: items)

/-- A statement that is a loop with a scope of its own, and a semicolon before it or behind it. -/
def IsGap (trees : List Tree) : Prop :=
  ∃ children semi, semi.type = .semicolon ∧
    (trees = [node .statement [node .forStatement children], leaf semi] ∨
      trees = [leaf semi, node .statement [node .forStatement children]])

/-- The tokens of a tree without a loop and a semicolon beside it, both in one of its statement
lists, which has another statement. -/
inductive Omits : Tree → List Token → Prop
  | here {d : Tree} {before gap after : List Tree} (listed : Lists d (before ++ gap ++ after))
      (isGap : IsGap gap) (another : ∃ s ∈ before ++ after, s.symbol = .rule .statement) :
      Omits d (yields (before ++ after))
  | inside {p : Production} {before after : List Tree} {c : Tree} {w : List Token}
      (part : Omits c w) :
      Omits (node p (before ++ c :: after)) (yields before ++ w ++ yields after)

/-! ## Statement lists -/

variable {d s semi rest x : Tree} {items before gap after children : List Tree}
  {δ ε : Declarations} {parent p : Production} {w : List Token}

theorem derived_last_iff :
    (node .statementList [s]).Derived ↔ s.symbol = .rule .statement ∧ s.Derived := by
  have allowed : [s.symbol] ∈ Production.statementList.extended.words ↔
      s.symbol = .rule .statement := by
    change _ ∈ ([[.rule .statement], [.rule .statement, .terminal .semicolon, .rule .statementList],
      [.rule .statement, .terminal .semicolon]] : List (List Symbol)) ↔ _
    simp
  rw [derived_node_iff, List.map_singleton, allowed]
  simp

theorem derived_ended_iff :
    (node .statementList [s, semi]).Derived ↔ (s.symbol = .rule .statement ∧ s.Derived) ∧
      semi.symbol = .terminal .semicolon ∧ semi.Derived := by
  have allowed : [s.symbol, semi.symbol] ∈ Production.statementList.extended.words ↔
      s.symbol = .rule .statement ∧ semi.symbol = .terminal .semicolon := by
    change _ ∈ ([[.rule .statement], [.rule .statement, .terminal .semicolon, .rule .statementList],
      [.rule .statement, .terminal .semicolon]] : List (List Symbol)) ↔ _
    simp
  rw [derived_node_iff, List.map_cons, List.map_singleton, allowed]
  simp only [List.forall_mem_cons, List.not_mem_nil, false_implies, implies_true, and_true]
  tauto

theorem derived_more_iff :
    (node .statementList [s, semi, rest]).Derived ↔ (s.symbol = .rule .statement ∧ s.Derived) ∧
      (semi.symbol = .terminal .semicolon ∧ semi.Derived) ∧
      rest.symbol = .rule .statementList ∧ rest.Derived := by
  have allowed : [s.symbol, semi.symbol, rest.symbol] ∈ Production.statementList.extended.words ↔
      s.symbol = .rule .statement ∧ semi.symbol = .terminal .semicolon ∧
        rest.symbol = .rule .statementList := by
    change _ ∈ ([[.rule .statement], [.rule .statement, .terminal .semicolon, .rule .statementList],
      [.rule .statement, .terminal .semicolon]] : List (List Symbol)) ↔ _
    simp
  rw [derived_node_iff, List.map_cons, List.map_cons, List.map_singleton, allowed]
  simp only [List.forall_mem_cons, List.not_mem_nil, false_implies, implies_true, and_true]
  tauto

namespace Lists

theorem symbol_eq (h : Lists d items) : d.symbol = .rule .statementList := by
  cases h <;> rfl

theorem yield_eq (h : Lists d items) : d.yield = yields items := by
  induction h with
  | last | ended => rfl
  | more s semi _ ih => simp [yield, yields, ih]

theorem derived (h : Lists d items) (hd : d.Derived) : ∀ c ∈ items, c.Derived := by
  induction h with
  | last | ended => exact (derived_node_iff.mp hd).2
  | more s semi _ ih =>
    obtain ⟨⟨-, hs⟩, ⟨-, hsemi⟩, -, hrest⟩ := derived_more_iff.mp hd
    simpa using ⟨hs, hsemi, ih hrest⟩

/-- A list is walked item by item. -/
theorem walk_eq (h : Lists d items) : d.walk parent δ = walkAll .statementList δ items := by
  induction h generalizing parent δ with
  | last | ended => rfl
  | more s semi h ih =>
    change walkAll .statementList δ [s, semi, _] = _
    simp only [walkAll, ih, Option.bind_fun_some]

/-- A list with another statement in the place of its first. -/
theorem exists_replaced (h : Lists d (x :: items)) (hd : d.Derived)
    (hs : s.symbol = .rule .statement) (derived : s.Derived) :
    ∃ d', d'.Derived ∧ Lists d' (s :: items) := by
  generalize hi : x :: items = all at h
  cases h with
  | last =>
    obtain ⟨rfl, rfl⟩ := List.cons.inj hi
    exact ⟨_, derived_last_iff.mpr ⟨hs, derived⟩, .last s⟩
  | ended _ semi =>
    obtain ⟨rfl, rfl⟩ := List.cons.inj hi
    obtain ⟨-, hsemi⟩ := derived_ended_iff.mp hd
    exact ⟨_, derived_ended_iff.mpr ⟨⟨hs, derived⟩, hsemi⟩, .ended s semi⟩
  | more _ semi h =>
    obtain ⟨rfl, rfl⟩ := List.cons.inj hi
    obtain ⟨-, behind⟩ := derived_more_iff.mp hd
    exact ⟨_, derived_more_iff.mpr ⟨⟨hs, derived⟩, behind⟩, .more s semi h⟩

/-- A statement list without a loop and a semicolon beside it is a statement list, if anything is
left. -/
theorem exists_without (h : Lists d (before ++ gap ++ after)) (hd : d.Derived) (isGap : IsGap gap)
    (left : before ++ after ≠ []) : ∃ d', d'.Derived ∧ Lists d' (before ++ after) := by
  obtain ⟨children, colon, -, isGap⟩ := isGap
  have two : gap.length = 2 := by rcases isGap with rfl | rfl <;> rfl
  have longer {before : List Tree} (left : before ++ after ≠ []) :
      2 < (before ++ gap ++ after).length := by
    have := List.length_pos_of_ne_nil left
    simp only [List.length_append] at this ⊢
    omega
  have long := longer left
  generalize hi : before ++ gap ++ after = items at h long
  -- Induction on the list: the gap is at its beginning, behind its first statement, or further on.
  induction h generalizing before with
  | last => simp at long
  | ended => simp at long
  | @more s semi rest items h ih =>
    obtain ⟨hs, hsemi, -, hrest⟩ := derived_more_iff.mp hd
    match before with
    | [] =>
      rcases isGap with rfl | rfl
      · obtain ⟨-, -, rfl⟩ : node .statement [node .forStatement children] = s ∧
            leaf colon = semi ∧ after = items := by simpa using hi
        exact ⟨rest, hrest, h⟩
      · -- A semicolon is no statement.
        obtain ⟨rfl, -⟩ : leaf colon = s ∧ _ := by simpa using hi
        cases hs.1
    | [y] =>
      rcases isGap with rfl | rfl
      · obtain ⟨-, rfl, -⟩ : y = s ∧ node .statement [node .forStatement children] = semi ∧ _ := by
          simpa using hi
        cases hsemi.1
      · obtain ⟨rfl, -, rfl⟩ : y = s ∧ leaf colon = semi ∧
            node .statement [node .forStatement children] :: after = items := by simpa using hi
        exact h.exists_replaced hrest hs.1 hs.2
    | y :: z :: before =>
      obtain ⟨rfl, rfl, rfl⟩ : y = s ∧ z = semi ∧ before ++ gap ++ after = items := by
        simpa using hi
      by_cases nothing : before ++ after = []
      · refine ⟨_, derived_ended_iff.mpr ⟨hs, hsemi⟩, ?_⟩
        rw [List.cons_append, List.cons_append, nothing]
        exact .ended y z
      · obtain ⟨d', hd', h'⟩ := ih hrest nothing rfl (longer nothing)
        exact ⟨_, derived_more_iff.mpr ⟨hs, hsemi, h'.symbol_eq, hd'⟩, .more y z h'⟩

end Lists

/-! ## Walks without a loop -/

theorem walkAll_append {cs ds : List Tree} :
    walkAll parent δ (cs ++ ds) = (walkAll parent δ cs).bind (walkAll parent · ds) := by
  induction cs generalizing δ with
  | nil => rfl
  | cons c cs ih => simp only [List.cons_append, walkAll, Option.bind_assoc, ih]

/-- One of several trees is replaced by another one whose walk ends as before. -/
theorem walkAll_replaced {c c' : Tree}
    (keeps : ∀ {δ ε : Declarations}, walk parent δ c = some ε → walk parent δ c' = some ε)
    (walked : walkAll parent δ (before ++ c :: after) = some ε) :
    walkAll parent δ (before ++ c' :: after) = some ε := by
  rw [walkAll_append] at walked ⊢
  obtain ⟨β, hβ, walked⟩ := Option.bind_eq_some_iff.mp walked
  obtain ⟨γ, hγ, walked⟩ := Option.bind_eq_some_iff.mp walked
  rw [hβ, Option.bind_some, walkAll, keeps hγ]
  exact walked

/-- A walk goes over a loop and a semicolon as if they were not there. -/
theorem IsGap.walkAll_eq (h : IsGap gap) (parts : ∀ c ∈ gap, c.Derived)
    (walked : walkAll .statementList δ gap = some ε) : ε = δ := by
  obtain ⟨children, semi, -, isGap⟩ := h
  have leaf_eq (δ : Declarations) : walk .statementList δ (leaf semi) = some δ :=
    walk_leaf (.inl rfl)
  have loop_eq {δ ε : Declarations}
      (derived : (node .statement [node .forStatement children]).Derived)
      (h : walk .statementList δ (node .statement [node .forStatement children]) = some ε) :
      ε = δ := by
    have inner := (derived_node_iff.mp derived).2 _ List.mem_cons_self
    have h : walkAll .statement δ [node .forStatement children] = some ε := h
    simp only [walkAll, Option.bind_fun_some] at h
    exact inner.walk_loop h
  rcases isGap with rfl | rfl
  · simp only [walkAll, leaf_eq, Option.bind_fun_some] at walked
    exact loop_eq (parts _ (by simp)) walked
  · simp only [walkAll, leaf_eq, Option.bind_some, Option.bind_fun_some] at walked
    exact loop_eq (parts _ (by simp)) walked

namespace Omits

/-- No loop is inside of what stands for a value. -/
theorem exists_symbol_eq (h : Omits d w) (hd : d.Derived) :
    ∃ p, d.symbol = .rule p ∧ p.isValue = false := by
  induction h with
  | here listed => exact ⟨_, listed.symbol_eq, rfl⟩
  | @inside p before after c w _ ih =>
    refine ⟨p, rfl, Bool.eq_false_iff.mpr fun hp => ?_⟩
    obtain ⟨allowed, parts⟩ := derived_node_iff.mp hd
    obtain ⟨q, hq, plain⟩ := ih (parts c (by simp))
    have mem : c.symbol ∈ (before ++ c :: after).map symbol := List.mem_map_of_mem (by simp)
    have value := isValue_of_mem_words allowed hp (hq ▸ mem)
    exact Bool.false_ne_true (plain.symm.trans value)

/-- No loop is inside of an assignment. -/
theorem ne_assignmentStatement {c : Tree} (h : Omits c w)
    (hd : (node p (before ++ c :: after)).Derived) : p ≠ .assignmentStatement := by
  rintro rfl
  obtain ⟨allowed, parts⟩ := derived_node_iff.mp hd
  obtain ⟨q, hq, plain⟩ := h.exists_symbol_eq (parts c (by simp))
  obtain ⟨x, op, value, -, -, hv, hc⟩ := assignmentStatement_children allowed
  have mem : c ∈ [leaf x, leaf op, value] := hc ▸ by simp
  simp only [List.mem_cons, List.not_mem_nil, or_false] at mem
  rcases mem with rfl | rfl | rfl
  · cases hq
  · cases hq
  · rcases hv with hv | hv
    · cases hq.symm.trans hv
      cases plain
    · cases hq.symm.trans hv

/-- What is left has a derivation, and its walk ends as before. -/
theorem exists_derived (h : Omits d w) (hd : d.Derived) :
    ∃ d', d'.Derived ∧ d'.symbol = d.symbol ∧ d'.yield = w ∧
      ∀ {parent : Production} {δ ε : Declarations},
        walk parent δ d = some ε → walk parent δ d' = some ε := by
  induction h with
  | @here d before gap after listed isGap another =>
    obtain ⟨s, hs, -⟩ := another
    obtain ⟨d', hd', listed'⟩ := listed.exists_without hd isGap (List.ne_nil_of_mem hs)
    refine ⟨d', hd', listed'.symbol_eq.trans listed.symbol_eq.symm, listed'.yield_eq, ?_⟩
    intro parent δ ε walked
    rw [listed.walk_eq, walkAll_append, walkAll_append, Option.bind_assoc] at walked
    rw [listed'.walk_eq, walkAll_append]
    obtain ⟨β, hβ, walked⟩ := Option.bind_eq_some_iff.mp walked
    obtain ⟨γ, hγ, walked⟩ := Option.bind_eq_some_iff.mp walked
    have derived : ∀ c ∈ gap, c.Derived := fun c hc => listed.derived hd c (by simp [hc])
    rw [hβ, Option.bind_some, ← isGap.walkAll_eq derived hγ]
    exact walked
  | @inside p before after c w part ih =>
    obtain ⟨allowed, parts⟩ := derived_node_iff.mp hd
    obtain ⟨c', hc', symbol_eq, rfl, keeps⟩ := ih (parts c (by simp))
    refine ⟨node p (before ++ c' :: after), derived_node_iff.mpr ⟨?_, ?_⟩, rfl, ?_, ?_⟩
    · simpa [symbol_eq] using allowed
    · intro b hb
      rcases List.mem_append.mp hb with hb | hb
      · exact parts b (by simp [hb])
      · rcases List.mem_cons.mp hb with rfl | hb
        · exact hc'
        · exact parts b (by simp [hb])
    · simp [yield]
    · intro parent δ ε walked
      obtain ⟨q, hq, plain⟩ := (Omits.inside part).exists_symbol_eq hd
      obtain rfl : p = q := by simpa [symbol] using hq
      have unassigned := part.ne_assignmentStatement hd
      cases p with
      | expression | term | factor => cases plain
      | assignmentStatement => exact absurd rfl unassigned
      | forStatement =>
        simp only [walk, Option.map_eq_some_iff] at walked ⊢
        obtain ⟨inside, hi, rfl⟩ := walked
        exact ⟨inside, walkAll_replaced keeps hi, rfl⟩
      | _ => exact walkAll_replaced keeps walked

end Omits

end Tree

/-! ## Programs -/

theorem analyser_statement_forKeyword {s : AnalyserState} (limit : Nat)
    (loop : s.lookahead.type = .forKeyword) :
    (endState (analyser limit .statement s)).scopes = s.scopes := by
  cases limit with
  | zero => rfl
  | succ limit =>
    refine Ensures.endState (P := fun t => t.scopes = s.scopes) (ensures_within.mpr ?_)
    refine ensures_bind.mpr (ensures_lookahead.mpr ?_)
    rw [AnalyserState.lookahead_emit, loop]
    exact scopes_inLoopScope (composed_analyser limit .forStatement).confined _

/-- A loop leaves the scopes as they were, however its statement ends: the same variables are
declared globally and in the loops around it, in the same order. So a program that is accepted is
accepted without a loop in one of its statement lists and a semicolon beside it, if that list has
another statement, and then the same variables are declared globally. -/
theorem loop_leaves_no_footprint :
    (∀ (limit : Nat) (s : AnalyserState), s.lookahead.type = .forKeyword →
      (endState (analyser limit .statement s)).scopes = s.scopes) ∧
    ∀ (stream other : TokenStream) (d : Tree) (w : List Token) (eof : Token),
      (analyse stream).outcome = .ok () →
      d.Derives .statementPart (accepted (analyse stream).events.toList) → d.Omits w →
      eof.type = .endOfFile → other.front (w.length + 1) = (w ++ [eof]).map .ok →
      (analyse other).outcome = .ok () ∧ (analyse other).scopes = (analyse stream).scopes := by
  refine ⟨fun limit s => analyser_statement_forKeyword limit, ?_⟩
  intro stream other d w eof accepted derives omits ends delivers
  -- The stream delivers what was accepted, and then the file ends.
  obtain ⟨first, input, t, pulled, run, left⟩ := exists_run_of_ok accepted
  obtain ⟨part, last⟩ := program_eq_ok_iff.mp run
  obtain ⟨d₀, ⟨-, -, taken⟩, -, passes⟩ := exists_derivation part
  have taken : d₀.yield = BlockLang.accepted (analyse stream).events.toList := by
    rw [analyse, left]
    exact taken
  have told := analyse_of_derives derives
    (IsProgram.type_ne_endOfFile ⟨d, derives⟩) last (taken ▸ passes.front pulled)
  obtain ⟨d', derived, symbol_eq, yield_eq, keeps⟩ := omits.exists_derived derives.derived
  have derives' : d'.Derives .statementPart w :=
    ⟨derived, symbol_eq.trans derives.symbol_eq, yield_eq⟩
  have told' := analyse_of_derives derives'
    (IsProgram.type_ne_endOfFile ⟨d', derives'⟩) ends delivers
  cases hδ : d.walk .statementPart .empty with
  | none => exact absurd accepted (told.2 hδ)
  | some δ =>
    obtain ⟨accepted', scopes_eq⟩ := told'.1 δ (keeps hδ)
    exact ⟨accepted', scopes_eq.trans (told.1 δ hδ).2.symm⟩

/-- The loop of `counting`. -/
def countingLoop : Tree :=
  .node .forStatement [.leaf ⟨.forKeyword, "for", ⟨2, 1⟩⟩, .leaf ⟨.leftParen, "(", ⟨2, 5⟩⟩,
    .node .assignmentStatement [.leaf ⟨.identifier, "i", ⟨2, 6⟩⟩, .leaf ⟨.colonEqual, ":=", ⟨2, 8⟩⟩,
      .node .expression [.node .term [.node .factor [.leaf ⟨.identifier, "x", ⟨2, 11⟩⟩]]]],
    .leaf ⟨.semicolon, ";", ⟨2, 12⟩⟩,
    .node .condition [.leaf ⟨.identifier, "i", ⟨2, 14⟩⟩,
      .node .conditionalOperator [.leaf ⟨.less, "<", ⟨2, 16⟩⟩],
      .leaf ⟨.numberLiteral, "9", ⟨2, 18⟩⟩],
    .leaf ⟨.semicolon, ";", ⟨2, 19⟩⟩,
    .node .assignmentStatement [.leaf ⟨.identifier, "i", ⟨2, 21⟩⟩,
      .leaf ⟨.colonEqual, ":=", ⟨2, 23⟩⟩,
      .node .expression [.node .term [.node .factor [.leaf ⟨.identifier, "i", ⟨2, 26⟩⟩]],
        .leaf ⟨.plus, "+", ⟨2, 28⟩⟩,
        .node .expression [.node .term [.node .factor [.leaf ⟨.identifier, "x", ⟨2, 30⟩⟩]]]]],
    .leaf ⟨.rightParen, ")", ⟨2, 31⟩⟩, .leaf ⟨.doKeyword, "do", ⟨2, 33⟩⟩,
    .node .statementList [.node .statement [.node .assignmentStatement
      [.leaf ⟨.identifier, "y", ⟨3, 3⟩⟩, .leaf ⟨.colonEqual, ":=", ⟨3, 5⟩⟩,
        .node .expression [.node .term [.node .factor [.leaf ⟨.identifier, "i", ⟨3, 8⟩⟩]]]]]],
    .leaf ⟨.endKeyword, "end", ⟨4, 1⟩⟩, .leaf ⟨.loopKeyword, "loop", ⟨4, 5⟩⟩]

/-- The statement before it. -/
def countingStart : Tree :=
  .node .statement [.node .assignmentStatement [.leaf ⟨.identifier, "x", ⟨1, 7⟩⟩,
    .leaf ⟨.colonEqual, ":=", ⟨1, 9⟩⟩,
    .node .expression [.node .term [.node .factor [.leaf ⟨.numberLiteral, "1", ⟨1, 12⟩⟩]]]]]

/-- The derivation of `counting`. -/
def countingTree : Tree :=
  .node .statementPart [.leaf ⟨.beginKeyword, "begin", ⟨1, 1⟩⟩,
    .node .statementList [countingStart, .leaf ⟨.semicolon, ";", ⟨1, 13⟩⟩,
      .node .statementList [.node .statement [countingLoop], .leaf ⟨.semicolon, ";", ⟨4, 9⟩⟩]],
    .leaf ⟨.endKeyword, "end", ⟨5, 1⟩⟩]

theorem countingTree_derives : countingTree.Derives .statementPart counting :=
  ⟨by decide +kernel, rfl, rfl⟩

/-- What is left of `counting` without its loop and the semicolon before it. -/
def uncounted : List Token := counting.take 4 ++ counting.drop 27

theorem countingTree_omits : countingTree.Omits uncounted := by
  -- The loop stands between the two semicolons, and goes with the first.
  have listed : Tree.Lists
      (.node .statementList [countingStart, .leaf ⟨.semicolon, ";", ⟨1, 13⟩⟩,
        .node .statementList [.node .statement [countingLoop], .leaf ⟨.semicolon, ";", ⟨4, 9⟩⟩]])
      ([countingStart] ++ [.leaf ⟨.semicolon, ";", ⟨1, 13⟩⟩, .node .statement [countingLoop]] ++
        [.leaf ⟨.semicolon, ";", ⟨4, 9⟩⟩]) := .more _ _ (.ended _ _)
  have left := Tree.Omits.here listed ⟨_, _, rfl, .inr rfl⟩ ⟨countingStart, List.mem_cons_self, rfl⟩
  exact @Tree.Omits.inside .statementPart [.leaf ⟨.beginKeyword, "begin", ⟨1, 1⟩⟩]
    [.leaf ⟨.endKeyword, "end", ⟨5, 1⟩⟩] _ _ left

/-- The analyser in front of the loop of `counting`, with another loop open. -/
def beforeCounting : AnalyserState where
  lookahead := ⟨.forKeyword, "for", ⟨2, 1⟩⟩
  input := .ofList ((counting.drop 6).map .ok)
  scopes := (Scopes.empty.declare "x" ⟨"x", .number, ⟨1, 7⟩⟩).enter.declare "i"
    ⟨"i", .string, ⟨1, 15⟩⟩
  chain := .fresh
  events := #[]
  notices := #[]

theorem loop_leaves_no_footprint_counting :
    beforeCounting.lookahead.type = .forKeyword ∧
    (endState (analyser 20 .statement beforeCounting)).scopes = beforeCounting.scopes ∧
    (analyse countingStream).outcome = .ok () ∧
    accepted (analyse countingStream).events.toList = counting ∧
    (analyse (.ofList (uncounted.map .ok))).outcome = .ok () ∧
    (analyse (.ofList (uncounted.map .ok))).scopes = (analyse countingStream).scopes := by
  have took : accepted (analyse countingStream).events.toList = counting := by decide +kernel
  have run : (analyse countingStream).outcome = .ok () := by decide +kernel
  have without := loop_leaves_no_footprint.2 countingStream (.ofList (uncounted.map .ok))
    countingTree uncounted countingStream.endToken run (took ▸ countingTree_derives)
    countingTree_omits rfl rfl
  exact ⟨rfl, loop_leaves_no_footprint.1 20 beforeCounting rfl, run, took, without⟩

end BlockLang
