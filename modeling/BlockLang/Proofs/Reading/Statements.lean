import BlockLang.Proofs.Reading.Values

/-!
# Reading statements

A derivation of statements is read as it is walked: every symbol of a right-hand side in its turn,
with the declarations that the symbols before it left. The token behind a symbol tells the analyser
which right-hand side it is in, because it begins the next symbol or does not go on with the
production.

## Main definitions

* `Tree.inside`: the walk of a derivation whose loop scope is open
* `Tree.Legible`: a derivation of statements is read under a limit as it is walked
* `Production.admits p ss`: the token types before the rest `ss` of a production
* `Analyser.Reads limit p ss m`: the move reads the symbols `ss` of a production in turn

## Main results

* `reads_rule`: a production reads each of its right-hand sides
* `Tree.Derived.legible`: every derivation is read under a limit that its height allows
-/

namespace BlockLang

open Analyser

/-- The declarations after the walk of a derivation whose loop scope, if it is a loop with one, is
open already. -/
def Tree.inside (δ : Declarations) : Tree → Option Declarations
  | node .forStatement children => walkAll .forStatement δ children
  | d => walk .statement δ d

/-- A derivation of statements is read under a limit as it is walked. -/
def Tree.Legible (limit : Nat) (d : Tree) : Prop :=
  ∀ c : Call, c.production.isValue = false → d.symbol = .rule c.production →
    ∀ {s δ next}, Stands s δ d.yield next → c.production.goesOn next.1.type = false →
      Walks (analyser limit c) (d.inside δ) next s

/-- A token that stands for no value is walked without a change. -/
theorem Tree.walk_leaf {parent : Production} {δ : Declarations} {t : Token}
    (h : parent.reads = false ∨ t.type ≠ .identifier) : walk parent δ (leaf t) = some δ := by
  rw [walk, if_neg]
  rintro ⟨reads, identifier, -⟩
  rcases h with h | h
  · cases h.symm.trans reads
  · exact h identifier

theorem Tree.inside_eq_walk {d : Tree} {p parent : Production} {δ : Declarations}
    (hd : d.symbol = .rule p) (plain : p ≠ .forStatement) : d.inside δ = d.walk parent δ := by
  obtain ⟨children, rfl⟩ := symbol_eq_rule.mp hd
  cases p <;> first | rfl | exact absurd rfl plain

theorem Tree.inside_node {p : Production} {δ : Declarations} {children : List Tree}
    (hv : p.isValue = false) (plain : p ≠ .assignmentStatement) :
    (node p children).inside δ = walkAll p δ children := by
  cases p with
  | assignmentStatement => exact absurd rfl plain
  | expression | term | factor => cases hv
  | _ => rfl

/-- The token types before the rest of a production: they begin its next symbol, or it does not go
on with them. -/
def Production.admits (p : Production) : List Symbol → TokenType → Bool
  | [], u => !p.goesOn u
  | s :: _, u => s.begins u

namespace Analyser

variable {α β : Type} {limit : Nat} {p : Production} {ss : List Symbol} {u : TokenType}
  {m : Analyser α} {f : α → Analyser β}

/-- The move reads the symbols of a production in turn. -/
def Reads (limit : Nat) (p : Production) (ss : List Symbol) (m : Analyser α) : Prop :=
  ∀ (children : List Tree) (s δ next), children.map Tree.symbol = ss →
    (∀ c ∈ children, c.Derived ∧ c.Legible limit) → Stands s δ (Tree.yields children) next →
    p.goesOn next.1.type = false → Walks m (Tree.walkAll p δ children) next s

/-- What stands at a place before the symbols is what they admit. -/
theorem admits_of_passes {children : List Tree} {here next : Place}
    (hs : children.map Tree.symbol = ss) (parts : ∀ c ∈ children, c.Derived)
    (h : Passes here (Tree.yields children) next) (closed : p.goesOn next.1.type = false) :
    p.admits ss here.1.type := by
  subst hs
  cases children with
  | nil =>
    obtain rfl : here = next := h
    simp [Production.admits, closed]
  | cons c rest =>
    obtain ⟨t, v, hy, ht⟩ := (parts c List.mem_cons_self).exists_cons
    rw [Tree.yields, hy] at h
    exact h.1 ▸ ht

/-- The end of a production. -/
theorem reads_pure (a : α) : Reads limit p [] (pure a) := by
  intro children s δ next hs _ h _
  obtain rfl := List.map_eq_nil_iff.mp hs
  exact ⟨δ, rfl, h⟩

/-- The last move of a production. -/
theorem Reads.last (h : Reads limit p ss (m >>= pure)) : Reads limit p ss m := by
  rwa [bind_pure] at h

/-- Two moves before others. -/
theorem Reads.assoc {γ : Type} {g : β → Analyser γ} (h : Reads limit p ss ((m >>= f) >>= g)) :
    Reads limit p ss (m >>= fun a => f a >>= g) := by
  rwa [bind_assoc] at h

/-- A move that reads one symbol, and the others behind it. -/
theorem reads_cons {s : Symbol}
    (hm : ∀ {d : Tree} {t δ next}, d.symbol = s → d.Derived → d.Legible limit →
      Stands t δ d.yield next → p.admits ss next.1.type → Walks m (d.walk p δ) next t)
    (hf : ∀ a, Reads limit p ss (f a)) : Reads limit p (s :: ss) (m >>= f) := by
  intro children t δ next hs parts h closed
  obtain ⟨d, rest, rfl, hd, hr⟩ := List.map_eq_cons_iff.mp hs
  obtain ⟨between, here, behind⟩ := Stands.split (u := d.yield) (v := Tree.yields rest) h
  obtain ⟨derived, legible⟩ := parts d List.mem_cons_self
  have rest_parts : ∀ c ∈ rest, c.Derived ∧ c.Legible limit := fun c hc =>
    parts c (List.mem_cons_of_mem _ hc)
  have admitted : p.admits ss between.1.type :=
    admits_of_passes hr (fun c hc => (rest_parts c hc).1) behind closed
  -- The others begin where the first one ended, with the declarations that it left.
  exact walks_bind (hm hd derived legible here admitted) fun a ε u _ hu =>
    hf a rest u ε next hr rest_parts (hu.after behind) closed

/-- A token that stands for no value. -/
theorem Reads.expect {f : Unit → Analyser β} (h : p.reads = false ∨ u ≠ .identifier)
    (hf : Reads limit p ss (f ())) : Reads limit p (.terminal u :: ss) (expect u >>= f) := by
  refine reads_cons (fun hd _ _ hs _ => ?_) fun _ => hf
  obtain ⟨token, rfl, ht⟩ := Tree.symbol_eq_terminal.mp hd
  rw [Tree.walk_leaf (h.imp_right (ht ▸ ·))]
  exact (hs.expect ht).answer fun _ t hst => ⟨_, rfl, hst.1⟩

/-- An identifier that stands for a value. -/
theorem Reads.declared {f : Unit → Analyser β} (h : p.reads) (hf : Reads limit p ss (f ())) :
    Reads limit p (.terminal .identifier :: ss)
      ((requireDeclared >>= fun _ => Analyser.expect .identifier) >>= f) := by
  refine reads_cons (fun hd _ _ hs _ => ?_) fun _ => hf
  obtain ⟨token, rfl, ht⟩ := Tree.symbol_eq_terminal.mp hd
  refine ensures_bind.mpr (ensures_requireDeclared.mpr ?_)
  rw [hs.lookahead_eq, if_pos ht, hs.lookup_eq, Tree.walk]
  split
  · next v hv =>
    rw [if_neg (by simp [hv])]
    exact (hs.expect ht).answer fun _ t hst => ⟨_, rfl, hst.1⟩
  · next hv => exact if_pos ⟨h, ht, hv⟩

/-- A part that is read as it is walked. -/
theorem Reads.call (c : Call) {f : c.Result → Analyser β}
    (h : c.production.isValue = false ∧ c.production ≠ .forStatement ∧
      ∀ u, p.admits ss u → c.production.goesOn u = false)
    (hf : ∀ a, Reads limit p ss (f a)) :
    Reads limit p (.rule c.production :: ss) (analyser limit c >>= f) := by
  obtain ⟨hv, plain, closes⟩ := h
  refine reads_cons (fun hd _ legible hs admitted => ?_) hf
  rw [← Tree.inside_eq_walk hd plain]
  exact legible c hv hd hs (closes _ admitted)

/-- A loop with a scope of its own. -/
theorem Reads.loop {f : Unit → Analyser β} (hf : ∀ a, Reads limit p ss (f a)) :
    Reads limit p (.rule .forStatement :: ss)
      (inLoopScope (analyser limit .forStatement) >>= f) := by
  refine reads_cons (fun hd _ legible hs _ => ?_) hf
  obtain ⟨children, rfl⟩ := Tree.symbol_eq_rule.mp hd
  -- Inside, the walk begins with a scope that is open already, and it is closed afterwards.
  refine ensures_inLoopScope.mpr ((legible .forStatement rfl hd hs.enterLoop rfl).imp ?_ ?_)
  · rintro a t ⟨ε, hε, ht⟩
    exact ⟨ε.leave, congrArg (Option.map Declarations.leave) hε, ht.leaveLoop⟩
  · exact fun stop t none => congrArg (Option.map Declarations.leave) none

/-- A move that looks at the token that comes next, and then does what another one does. -/
theorem reads_of_admitted
    (h : ∀ s : AnalyserState, p.admits ss s.lookahead.type →
      ∃ n : Analyser α, Reads limit p ss n ∧ ∀ r next, Walks n r next s → Walks m r next s) :
    Reads limit p ss m := by
  intro children s δ next hs parts stands closed
  have admitted : p.admits ss s.lookahead.type :=
    admits_of_passes hs (fun c hc => (parts c hc).1) stands.passes closed
  obtain ⟨n, reads, same⟩ := h s admitted
  exact same _ _ (reads children s δ next hs parts stands closed)

/-- The token that comes next is one that begins the next symbol. -/
theorem Reads.seeing {s : Symbol} {f : Token → Analyser β} (hs : ∀ v, s.begins v → v = u)
    (hf : ∀ t, t.type = u → Reads limit p (s :: ss) (f t)) :
    Reads limit p (s :: ss) (Analyser.lookahead >>= f) :=
  reads_of_admitted fun t ht =>
    ⟨f t.lookahead, hf _ (hs _ ht), fun _ _ h => ensures_bind.mpr (ensures_lookahead.mpr h)⟩

theorem Reads.lookingAt {sort : TokenType → Bool} {f : Bool → Analyser β} (b : Bool)
    (hb : ∀ u, p.admits ss u → sort u = b) (hf : Reads limit p ss (f b)) :
    Reads limit p ss (Analyser.lookingAt sort >>= f) := by
  refine reads_of_admitted fun t ht => ⟨f b, hf, fun _ _ h => ?_⟩
  refine ensures_bind.mpr (ensures_lookingAt.mpr ?_)
  rw [hb _ ht]
  exact h

theorem Reads.require {sort : TokenType → Bool} {cause : Token → Cause} {f : Unit → Analyser β}
    (hb : ∀ u, p.admits ss u → sort u) (hf : Reads limit p ss (f ())) :
    Reads limit p ss (Analyser.require sort cause >>= f) := by
  refine reads_of_admitted fun t ht => ⟨f (), hf, fun _ _ h => ?_⟩
  refine ensures_bind.mpr (ensures_require.mpr ?_)
  rw [if_pos (hb _ ht)]
  exact h

end Analyser

variable {limit : Nat}

/-- A production other than an assignment reads each of its right-hand sides. -/
theorem reads_rule {c : Call} (hv : c.production.isValue = false)
    (plain : c.production ≠ .assignmentStatement)
    {ss : List Symbol} (allowed : ss ∈ c.production.extended.words) :
    Reads limit c.production ss (rule (analyser limit) c) := by
  -- The right-hand sides of each production, one by one.
  cases c <;> simp only [Call.production, Production.extended, Production.reference,
    Ebnf.words_append, Ebnf.words_or, Ebnf.words_option, Ebnf.words_token, Ebnf.words_part,
    List.flatMap_cons, List.flatMap_nil, List.map_cons, List.map_nil, List.cons_append,
    List.nil_append, List.append_nil, List.mem_cons, List.not_mem_nil, or_false] at allowed
  case statementPart =>
    subst allowed
    exact .expect (.inl rfl) <| .call .statementList (by decide) fun _ => .last <|
      .expect (.inl rfl) <| reads_pure _
  case statementList =>
    -- After a semicolon, the next token tells whether the list goes on.
    rcases allowed with rfl | rfl | rfl
    · exact .call .statement (by decide) fun _ => .lookingAt false (by decide) <| reads_pure _
    · exact .call .statement (by decide) fun _ => .lookingAt true (by decide) <|
        .expect (.inl rfl) <| .lookingAt true (by decide) <| .last <|
        .call .statementList (by decide) fun _ => reads_pure _
    · exact .call .statement (by decide) fun _ => .lookingAt true (by decide) <|
        .expect (.inl rfl) <| .lookingAt false (by decide) <| reads_pure _
  case statement =>
    -- Each kind of statement begins with a token type of its own.
    rcases allowed with rfl | rfl | rfl | rfl | rfl | rfl
    · refine .seeing (u := .identifier) (by decide) fun t ht => ?_
      rw [ht]
      exact .last <| .call .assignmentStatement (by decide) fun _ => reads_pure _
    · refine .seeing (u := .ifKeyword) (by decide) fun t ht => ?_
      rw [ht]
      exact .last <| .call .ifStatement (by decide) fun _ => reads_pure _
    · refine .seeing (u := .whileKeyword) (by decide) fun t ht => ?_
      rw [ht]
      exact .last <| .call .whileStatement (by decide) fun _ => reads_pure _
    · refine .seeing (u := .callKeyword) (by decide) fun t ht => ?_
      rw [ht]
      exact .last <| .call .procedureStatement (by decide) fun _ => reads_pure _
    · refine .seeing (u := .doKeyword) (by decide) fun t ht => ?_
      rw [ht]
      exact .last <| .call .untilStatement (by decide) fun _ => reads_pure _
    · refine .seeing (u := .forKeyword) (by decide) fun t ht => ?_
      rw [ht]
      exact .last <| .loop fun _ => reads_pure _
  case assignmentStatement => exact absurd rfl plain
  case ifStatement =>
    -- The token behind the first list tells whether there is another one.
    rcases allowed with rfl | rfl
    · refine .expect (.inl rfl) <| .call .condition (by decide) fun _ => .expect (.inl rfl) <|
        .call .statementList (by decide) fun _ => .seeing (u := .endKeyword) (by decide)
        fun t ht => ?_
      rw [ht]
      exact .expect (.inl rfl) <| .last <| .expect (.inl rfl) <| reads_pure _
    · refine .expect (.inl rfl) <| .call .condition (by decide) fun _ => .expect (.inl rfl) <|
        .call .statementList (by decide) fun _ => .seeing (u := .elseKeyword) (by decide)
        fun t ht => ?_
      rw [ht]
      exact .expect (.inl rfl) <| .call .statementList (by decide) fun _ =>
        .expect (.inl rfl) <| .last <| .expect (.inl rfl) <| reads_pure _
  case whileStatement =>
    subst allowed
    exact .expect (.inl rfl) <| .call .condition (by decide) fun _ => .expect (.inl rfl) <|
      .call .statementList (by decide) fun _ => .expect (.inl rfl) <| .last <|
      .expect (.inl rfl) <| reads_pure _
  case untilStatement =>
    subst allowed
    exact .expect (.inl rfl) <| .call .statementList (by decide) fun _ => .expect (.inl rfl) <|
      .last <| .call .condition (by decide) fun _ => reads_pure _
  case forStatement =>
    subst allowed
    exact .expect (.inl rfl) <| .expect (.inl rfl) <|
      .call .assignmentStatement (by decide) fun _ => .expect (.inl rfl) <|
      .call .condition (by decide) fun _ => .expect (.inl rfl) <|
      .call .assignmentStatement (by decide) fun _ => .expect (.inl rfl) <|
      .expect (.inl rfl) <| .call .statementList (by decide) fun _ => .expect (.inl rfl) <|
      .last <| .expect (.inl rfl) <| reads_pure _
  case procedureStatement =>
    subst allowed
    exact .expect (.inl rfl) <| .expect (.inl rfl) <| .expect (.inl rfl) <|
      .call .argumentList (by decide) fun _ => .last <| .expect (.inl rfl) <| reads_pure _
  case argumentList =>
    rcases allowed with rfl | rfl
    · refine .assoc <| .declared rfl <| .lookingAt false (by decide) <| reads_pure _
    · exact .assoc <| .declared rfl <| .lookingAt true (by decide) <| .expect (.inr (by decide)) <|
        .last <| .call .argumentList (by decide) fun _ => reads_pure _
  case condition =>
    rcases allowed with rfl | rfl | rfl
    · refine .assoc <| .declared rfl <| .call .conditionalOperator (by decide) fun _ =>
        .seeing (u := .identifier) (by decide) fun t ht => ?_
      rw [ht]
      exact .last <| .declared rfl <| reads_pure _
    · refine .assoc <| .declared rfl <| .call .conditionalOperator (by decide) fun _ =>
        .seeing (u := .numberLiteral) (by decide) fun t ht => ?_
      rw [ht]
      exact .last <| .expect (.inr (by decide)) <| reads_pure _
    · refine .assoc <| .declared rfl <| .call .conditionalOperator (by decide) fun _ =>
        .seeing (u := .stringLiteral) (by decide) fun t ht => ?_
      rw [ht]
      exact .last <| .expect (.inr (by decide)) <| reads_pure _
  case conditionalOperator =>
    -- The same for each of the six operators.
    obtain ⟨u, rfl, hu⟩ : ∃ u, ss = [.terminal u] ∧ u.isRelational := by
      rcases allowed with rfl | rfl | rfl | rfl | rfl | rfl <;> exact ⟨_, rfl, rfl⟩
    have only (v : TokenType) (hv : (Symbol.terminal u).begins v) : v = u := by
      simpa [Symbol.begins] using hv
    refine .require (fun v hv => only v hv ▸ hu) <| .seeing only fun t ht => ?_
    rw [ht]
    exact .last <| .expect (.inl rfl) <| reads_pure _
  all_goals cases hv

/-! ## Assignments -/

variable {δ : Declarations} {s : AnalyserState} {next : Place} {children : List Tree}

/-- An assignment declares its target with the type of its value. -/
theorem inside_assignment {x op : Token} {value : Tree} :
    (Tree.node .assignmentStatement [.leaf x, .leaf op, value]).inside δ =
      (value.walk .assignmentStatement δ).bind fun ε =>
        (ε.valueType? value.yield).map fun σ => ε.declare ⟨x.value, σ, x.position⟩ := by
  have leaf (t : Token) : (Tree.leaf t).walk .assignmentStatement δ = some δ :=
    Tree.walk_leaf (.inl rfl)
  change Tree.walk .statement δ _ = _
  rw [Tree.walk, Tree.walkAll, leaf, Option.bind_some, Tree.walkAll, leaf, Option.bind_some,
    Tree.walkAll]
  cases value.walk .assignmentStatement δ with
  | none => rfl
  | some ε =>
    change (ε.assigned? [.leaf x, .leaf op, value] >>= fun v => some (ε.declare v)) =
      (ε.valueType? value.yield).map _
    rw [Declarations.assigned?]
    cases ε.valueType? value.yield <;> rfl

/-- A target is declared when its value has been read. -/
theorem walks_declare {x : Token} {value : Tree} {τ : ValueType}
    (walked : value.walk .assignmentStatement δ = some δ)
    (typed : ∀ σ, HasType δ value.yield σ ↔ σ = τ) (h : Stands s δ [] next) :
    Walks (declare ⟨x.value, τ, x.position⟩)
      ((value.walk .assignmentStatement δ).bind fun ε =>
        (ε.valueType? value.yield).map fun σ => ε.declare ⟨x.value, σ, x.position⟩) next s := by
  have known : τ ≠ .unknown := by
    rcases ((typed τ).mpr rfl).known with rfl | rfl <;> decide
  rw [walked, Option.bind_some, valueType?_eq_some typed]
  exact ensures_declare.mpr ⟨_, rfl, h.declare known⟩

/-- An assignment is read as it is walked. -/
theorem walks_assignment
    (allowed : children.map Tree.symbol ∈ Production.assignmentStatement.extended.words)
    (parts : ∀ c ∈ children, c.Derived ∧ c.ReadsValue limit)
    (h : Stands s δ (Tree.yields children) next)
    (closed : Production.assignmentStatement.goesOn next.1.type = false) :
    Walks (rule (analyser limit) .assignmentStatement)
      ((Tree.node .assignmentStatement children).inside δ) next s := by
  obtain ⟨x, op, value, hx, ho, hv, rfl⟩ := Tree.assignmentStatement_children allowed
  obtain ⟨derived, reads⟩ := parts value (by simp)
  have yields_eq : Tree.yields [.leaf x, .leaf op, value] = x :: op :: value.yield := by
    simp [Tree.yields, Tree.yield]
  rw [yields_eq] at h
  rw [inside_assignment]
  refine ensures_bind.mpr ((h.accept hx).answer fun target t ht => ?_)
  obtain ⟨rfl, ht, -⟩ := ht
  refine ensures_bind.mpr ((ht.expect ho).answer fun _ u hu => ?_)
  refine ensures_bind.mpr (ensures_lookahead.mpr ?_)
  rcases hv with hv | hv
  · -- The value is an expression, which begins a sum.
    have here : Stands { u with chain := .fresh } δ value.yield next := hu.1.congr rfl rfl
    obtain ⟨first, rest, hy, begins⟩ := derived.exists_cons
    have la : u.lookahead = first := (hy ▸ hu.1).lookahead_eq
    rw [hv, ← la] at begins
    replace begins : u.lookahead.type.startsOperand := begins
    rw [if_pos begins]
    refine ensures_bind.mpr (ensures_beginChain.mpr (ensures_bind.mpr ?_))
    refine (reads.expression hv none here closed rfl).imp (fun τ a ha => ?_)
      fun stop a untyped => ?_
    · obtain ⟨fits, ha⟩ := ha
      have typed (σ : ValueType) : HasType δ value.yield σ ↔ σ = τ := by
        rw [← fits σ]
        exact ⟨fun h => ⟨h, trivial⟩, fun h => h.1⟩
      have has : HasType δ value.yield τ := (typed τ).mpr rfl
      -- A value that begins with a number is one.
      have same : (if u.lookahead.type = .numberLiteral then .number else τ) = τ := by
        split
        · next hn =>
          have := has.operands first (hy ▸ List.mem_cons_self) (by rw [← la, hn]; rfl)
          simpa [Declarations.typeOf, ← la, hn] using this
        · rfl
      rw [same]
      refine ensures_bind.mpr (walks_declare (Tree.walk_of_hasType derived ?_ has _) typed ha)
      exact fun q hq => by cases hv.symm.trans hq; rfl
    · -- The run stopped in the value, which has no type.
      obtain ⟨terms, rfl⟩ := Tree.symbol_eq_rule.mp hv
      have no_type : δ.valueType? (Tree.yields terms) = none :=
        valueType?_eq_none_iff.mpr fun σ hσ => untyped σ ⟨hσ, trivial⟩
      rw [Tree.walk, if_pos no_type]
      rfl
  · -- The value is a string.
    obtain ⟨str, rfl, hstr⟩ := Tree.symbol_eq_terminal.mp hv
    rw [hu.1.lookahead_eq, hstr]
    refine ensures_bind.mpr ((hu.1.expect hstr).answer fun _ a ha => ?_)
    exact ensures_bind.mpr (walks_declare (Tree.walk_leaf (.inl rfl))
      (fun σ => hasType_string hstr) ha.1)

/-- Every derivation is read under a limit that its height allows. -/
theorem Tree.Derived.legible {d : Tree} (hd : d.Derived) (high : d.height ≤ limit) :
    d.Legible limit := by
  -- Induction on the derivation: the parts are lower, so they are read under one less.
  induction hd generalizing limit with
  | leaf t => exact fun c _ hs => by cases hs
  | node p children allowed derived ih =>
    cases limit with
    | zero => cases high
    | succ limit =>
      have lower (c : Tree) (hc : c ∈ children) : c.height ≤ limit :=
        (height_le_heights hc).trans (Nat.le_of_succ_le_succ high)
      intro c hv hs s δ next h closed
      obtain rfl : p = c.production := by simpa [symbol] using hs
      -- An assignment declares its target after its value, the others only walk their parts.
      by_cases assignment : c.production = .assignmentStatement
      · obtain rfl : c = .assignmentStatement := by cases c <;> first | rfl | cases assignment
        exact walks_within (fun t ht => walks_assignment allowed
          (fun c hc => ⟨derived c hc, (derived c hc).readsValue (lower c hc)⟩) ht closed) h
      · rw [inside_node hv assignment]
        exact walks_within (fun t ht => reads_rule hv assignment allowed children t δ next rfl
          (fun c hc => ⟨derived c hc, ih c hc (lower c hc)⟩) ht closed) h

end BlockLang
