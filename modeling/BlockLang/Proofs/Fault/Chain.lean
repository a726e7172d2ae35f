import BlockLang.Proofs.Fault.Unwinding
import BlockLang.Proofs.Grammar.Spelling

/-!
# Fault chains

A fault passes through the productions that are open where it arises, from the innermost outward.
Each puts a link before the chain and tells the trace of the fault that it has become. So the faults
that the trace tells of are the chain read backwards, and the productions of the chain are those
that were open.

## Main definitions

* `errors`: the faults that a trace tells of
* `Fault.chain`: the fault and the causes behind it, each with its own causes
* `ToldOf`: how an analysis that ended with a fault tells of it

## Main results

* `Stop.exists_throughAll_fault`: what a fault becomes on its way out
* `exists_unwinding`: the unwinding behind a run of a program that ended with a fault
* `fault_unwinds_open_productions`: how an analysis tells of a fault
-/

namespace BlockLang

/-- The faults that a trace tells of. -/
def errors (events : List Event) : List Fault :=
  events.filterMap fun
    | .error _ f => some f
    | _ => none

@[simp] theorem errors_append (es fs : List Event) :
    errors (es ++ fs) = errors es ++ errors fs := by
  simp [errors]

theorem ErrorFree.errors_eq {events : List Event} (h : ErrorFree events) : errors events = [] := by
  rw [errors, List.filterMap_eq_nil_iff]
  intro e he
  cases e with
  | error t f => exact absurd rfl (h _ he)
  | _ => rfl

/-- The causes of a chain, each with its own causes. -/
def Fault.chainOf : List FaultLink → List Fault
  | [] => []
  | link :: rest => ⟨link, rest⟩ :: chainOf rest

/-- The fault and the causes behind it, each with its own causes. -/
def Fault.chain (f : Fault) : List Fault := chainOf f.links

theorem Fault.length_chainOf (links : List FaultLink) : (chainOf links).length = links.length := by
  induction links with
  | nil => rfl
  | cons link rest ih => simp [chainOf, ih]

@[simp] theorem Fault.chain_within (link : FaultLink) (f : Fault) :
    (f.within link).chain = f.within link :: f.chain := rfl

/-- The class of a cause is no production. -/
@[simp] theorem Cause.production?_kind (cause : Cause) : cause.kind.production? = none := by
  cases cause <;> rfl

/-- What a fault becomes on its way out through productions, the innermost first. -/
theorem Stop.exists_throughAll_fault (lookahead : Token) (g : Fault) (productions : List String) :
    ∃ f : Fault, (Stop.fault g).throughAll lookahead productions = .fault f ∧
      f.links = productions.reverse.map (passageLink · lookahead) ++ g.links ∧ f.root = g.root ∧
      f.chain.reverse = g.chain.reverse ++ errors (unwinding lookahead (.fault g) productions) := by
  induction productions generalizing g with
  | nil => exact ⟨g, rfl, by simp, rfl, by simp [unwinding, errors]⟩
  | cons p productions ih =>
    -- The innermost production puts its link first, and the others go on from there.
    obtain ⟨f, hf, links, root, chain⟩ := ih (g.within (passageLink p lookahead))
    refine ⟨f, hf, by simp [links], by simp [root], ?_⟩
    have said : errors ((Stop.fault g).farewell p lookahead) =
        [g.within (passageLink p lookahead)] := rfl
    rw [chain, unwinding, errors_append, said]
    simp [Stop.through]

/-- A stop that no production changes stays as it is. -/
theorem Stop.throughAll_eq {lookahead : Token} {stop : Stop}
    (h : ∀ p, stop.through p lookahead = stop) (productions : List String) :
    stop.throughAll lookahead productions = stop := by
  rw [throughAll]
  induction productions with
  | nil => rfl
  | cons p productions ih => rw [List.foldl_cons, h, ih]

/-- Only a fault can become a fault on its way out. -/
theorem Unwinds.exists_cause {s t : AnalyserState} {f : Fault} {before first : List Event}
    {origin : Stop} {productions : List String}
    (h : Unwinds s (.fault f) t before origin first productions) :
    ∃ (token : Token) (cause : Cause), origin = .fault (.ofLink (cause.link token)) ∧
      first = [.error token (.ofLink (cause.link token))] ∧
      (cause.kind = .mismatch ∨ token = t.lookahead) := by
  have stop_eq := h.stop_eq
  -- Neither a lexical error nor a run that is too deep is changed on its way out.
  cases h.arises with
  | fault token cause hc => exact ⟨token, cause, rfl, rfl, hc⟩
  | lexical e =>
    rw [Stop.throughAll_eq fun _ => rfl] at stop_eq
    cases stop_eq
  | tooDeep =>
    rw [Stop.throughAll_eq fun _ => rfl] at stop_eq
    cases stop_eq

/-- Nothing but a lexical error becomes one on its way out. -/
theorem Unwinds.origin_eq_lexical {s t : AnalyserState} {e : LexicalError}
    {before first : List Event} {origin : Stop} {productions : List String}
    (h : Unwinds s (.lexical e) t before origin first productions) :
    origin = .lexical e ∧ first = [] := by
  have stop_eq := h.stop_eq
  cases h.arises with
  | fault token cause =>
    obtain ⟨f, hf, -⟩ := Stop.exists_throughAll_fault t.lookahead (.ofLink (cause.link token))
      productions
    cases stop_eq.trans hf
  | lexical e =>
    rw [Stop.throughAll_eq fun _ => rfl] at stop_eq
    exact ⟨stop_eq.symm, rfl⟩
  | tooDeep =>
    rw [Stop.throughAll_eq fun _ => rfl] at stop_eq
    cases stop_eq

/-- The first cause stays what it was. -/
theorem Unwinds.root_eq {s t : AnalyserState} {f : Fault} {before first : List Event}
    {link : FaultLink} {productions : List String}
    (h : Unwinds s (.fault f) t before (.fault (.ofLink link)) first productions) :
    f.root = link := by
  obtain ⟨g, hg, -, root, -⟩ :=
    Stop.exists_throughAll_fault t.lookahead (.ofLink link) productions
  cases h.stop_eq.trans hg
  exact root

/-- The first production unwinds itself when it is left by a fault. -/
theorem exists_unwinds_statementPart {limit : Nat} {s t : AnalyserState} {f : Fault}
    (h : analyser limit .statementPart s = .error (.fault f) t) :
    ∃ before origin first productions,
      Unwinds s (.fault f) t before origin first productions ∧ productions ≠ [] := by
  cases limit with
  | zero => cases h
  | succ limit =>
    have unwound : Analyser.Ensures (analyser (limit + 1) .statementPart) (fun _ _ => True)
        (fun stop t => ∃ before origin first productions,
          Unwinds s stop t before origin first productions ∧ productions ≠ []) s := by
      rw [analyser_succ, Analyser.ensures_within]
      refine ((composed_rule (composed_analyser limit) .statementPart).orderly _).imp
        (fun _ _ _ => trivial) fun stop t ht => ?_
      obtain ⟨before, origin, first, productions, ht⟩ := ht
      exact ⟨_, _, _, _, ht.within, by simp⟩
    exact unwound.of_error h

/-- The unwinding behind a run of a program that ended with a fault. No production is open only when
tokens trail behind the program. -/
theorem exists_unwinding {limit : Nat} {first : Token} {input : TokenStream} {f : Fault}
    {t : AnalyserState} (h : program limit (.start first input) = .error (.fault f) t) :
    ∃ (before : List Event) (token : Token) (cause : Cause) (productions : List String),
      Unwinds (.start first input) (.fault f) t before (.fault (.ofLink (cause.link token)))
        [.error token (.ofLink (cause.link token))] productions ∧
      (cause.kind = .mismatch ∨ token = t.lookahead) ∧
      (productions = [] → t.lookahead.type ≠ .endOfFile ∧ token = t.lookahead ∧
        cause = .trailing t.lookahead ∧
        ∃ d : Tree, d.Derives .statementPart (accepted before) ∧ skeleton before = d.trace) := by
  -- The first production was left by the fault, or it had ended and a token trailed behind it.
  rcases program_eq_error_iff.mp h with h | ⟨u, hu, last, h⟩
  · obtain ⟨before, origin, first, productions, hs, hne⟩ := exists_unwinds_statementPart h
    obtain ⟨token, cause, rfl, rfl, stands⟩ := hs.exists_cause
    exact ⟨before, token, cause, productions, hs, stands, fun he => absurd he hne⟩
  · obtain ⟨events, settled, hevents⟩ := ((composed_analyser limit _).orderly _).of_ok hu
    obtain ⟨d, derives, trace_eq, -⟩ := exists_derivation hu
    rw [AnalyserState.trace_start, List.nil_append] at hevents
    cases h
    refine ⟨events, u.lookahead, .trailing u.lookahead, [], ?_, .inr rfl, fun _ => ?_⟩
    · exact .of_arises settled (.fault u.lookahead (.trailing u.lookahead) (.inr rfl))
        (by simp [hevents]; rfl)
    · exact ⟨last, rfl, rfl, d, hevents ▸ derives, hevents ▸ trace_eq⟩

/-! ## Open productions -/

theorem openAfter_skeleton (stack : List String) (events : List Event) :
    openAfter stack (skeleton events) = openAfter stack events := by
  induction events generalizing stack with
  | nil => rfl
  | cons e events ih =>
    have one : openAfter stack (skeleton [e]) = openAfter stack [e] := by cases e <;> rfl
    rw [← List.singleton_append, skeleton_append, openAfter_append, openAfter_append, one, ih]

theorem openAfter_traces {children : List Tree}
    (h : ∀ c ∈ children, ∀ stack, openAfter stack c.trace = stack) (stack : List String) :
    openAfter stack (Tree.traces children) = stack := by
  induction children with
  | nil => rfl
  | cons c rest ih =>
    rw [Tree.traces, openAfter_append, h c List.mem_cons_self,
      ih fun c hc => h c (List.mem_cons_of_mem _ hc)]

/-- The walk around a derivation ends all that it begins. -/
theorem Tree.Derived.openAfter_trace {d : Tree} (h : d.Derived) (stack : List String) :
    openAfter stack d.trace = stack := by
  induction h generalizing stack with
  | leaf t => rfl
  | node p children _ _ ih => simp [Tree.trace, openAfter, openAfter_append, openAfter_traces ih]

/-- No production is open after a derivation. -/
theorem openProductions_eq_nil {events : List Event} {d : Tree} (h : d.Derived)
    (he : skeleton events = d.trace) : openProductions events = [] := by
  rw [openProductions, ← openAfter_skeleton, he, h.openAfter_trace, List.reverse_nil]

/-! ## The faults of an analysis -/

/-- How an analysis that ended with a fault tells of it. After `before`, at the token where the
fault arose, come the fault and then each open production, from the innermost outward: the fault
that it has become, and the end of the production. -/
structure ToldOf (a : Analysis Unit) (f : Fault) (before : List Event) (token lookahead : Token) :
    Prop where
  lookahead_eq : a.lookahead = some lookahead
  errorFree : ErrorFree before
  events_eq : a.events.toList = before ++ .error token (.ofLink f.root) ::
    unwinding lookahead (.fault (.ofLink f.root)) (openProductions before).reverse
  links_eq : f.links = (openProductions before).map (passageLink · lookahead) ++ [f.root]
  root_kind : f.root.kind.production? = none
  productions_eq : f.productions = openProductions before
  length_chain : f.chain.length = (openProductions before).length + 1
  errors_eq : errors a.events.toList = f.chain.reverse
  trailing_iff : openProductions before = [] ↔
    ∃ d : Tree, d.Derives .statementPart (accepted before) ∧ skeleton before = d.trace
  trailing_root : openProductions before = [] → lookahead.type ≠ .endOfFile ∧
    token = lookahead ∧ f.root = (Cause.trailing lookahead).link lookahead

/-- The unwinding of a run of a program is told by its analysis. -/
theorem Unwinds.toldOf {first : Token} {input : TokenStream} {f : Fault} {t : AnalyserState}
    {before : List Event} {token : Token} {cause : Cause} {productions : List String}
    (h : Unwinds (.start first input) (.fault f) t before (.fault (.ofLink (cause.link token)))
      [.error token (.ofLink (cause.link token))] productions)
    (trailing : productions = [] → t.lookahead.type ≠ .endOfFile ∧ token = t.lookahead ∧
      cause = .trailing t.lookahead ∧
      ∃ d : Tree, d.Derives .statementPart (accepted before) ∧ skeleton before = d.trace) :
    ToldOf (.ofState (.error (.fault f)) t) f before token t.lookahead := by
  have opened : openProductions before = productions.reverse := by
    simp [openProductions, h.opens]
  obtain ⟨g, hg, links, -, chain⟩ :=
    Stop.exists_throughAll_fault t.lookahead (.ofLink (cause.link token)) productions
  cases h.stop_eq.trans hg
  have root_eq := h.root_eq
  have root_kind : f.root.kind.production? = none := by
    rw [root_eq]
    exact cause.production?_kind
  -- One link for each open production, the outermost first, and the root at the end.
  have links_eq : f.links =
      (openProductions before).map (passageLink · t.lookahead) ++ [f.root] := by
    rw [opened, links, root_eq]
    rfl
  have events_eq : t.trace = before ++ .error token (.ofLink f.root) ::
      unwinding t.lookahead (.fault (.ofLink f.root)) (openProductions before).reverse := by
    rw [opened, List.reverse_reverse, root_eq]
    exact h.trace_eq.trans (by simp)
  refine ⟨rfl, h.errorFree, events_eq, links_eq, root_kind, ?_, ?_, ?_,
    ⟨fun he => ?_, fun hd => ?_⟩, fun he => ?_⟩
  · -- Every link but the root names a production.
    have names : ((·.kind.production?) ∘ (passageLink · t.lookahead)) = some := rfl
    rw [Fault.productions, links_eq, List.filterMap_append, List.filterMap_map, names]
    simp [root_kind]
  · rw [Fault.chain, Fault.length_chainOf, links_eq]
    simp
  · -- No fault before the first one, then the chain from its root outward.
    have said : errors [.error token (.ofLink f.root)] = (Fault.ofLink f.root).chain.reverse := rfl
    change errors t.trace = _
    rw [events_eq, opened, List.reverse_reverse, errors_append, h.errorFree.errors_eq,
      List.nil_append, ← List.singleton_append, errors_append, said, chain, root_eq]
  · -- A program stands before the fault if nothing is open there.
    exact (trailing (by simpa [opened] using he)).2.2.2
  · obtain ⟨d, derives, skeleton_eq⟩ := hd
    exact openProductions_eq_nil derives.derived skeleton_eq
  · obtain ⟨last, rfl, rfl, -⟩ := trailing (by simpa [opened] using he)
    exact ⟨last, rfl, root_eq⟩

/-- An analysis that ends with a fault tells of it once, and then of its way out through the
productions that are open, none of which is left out. -/
theorem fault_unwinds_open_productions {stream : TokenStream} {f : Fault}
    (h : (analyse stream).outcome = .error (.fault f)) :
    ∃ before token lookahead, ToldOf (analyse stream) f before token lookahead := by
  obtain ⟨first, input, t, -, run, left⟩ := exists_run_of_fault h
  obtain ⟨before, token, cause, productions, unwinds, -, trailing⟩ := exists_unwinding run
  exact ⟨before, token, t.lookahead, by rw [analyse, left]; exact unwinds.toldOf trailing⟩

/-- A condition on a variable that was not declared. -/
def undeclaredCondition : TokenStream :=
  .ofList ([⟨.beginKeyword, "begin", ⟨1, 1⟩⟩, ⟨.ifKeyword, "if", ⟨1, 7⟩⟩,
    ⟨.identifier, "x", ⟨1, 10⟩⟩].map .ok)

/-- What the analysis says about it. -/
def undeclaredFault : Fault :=
  ⟨⟨.passage "StatementPart", "error caught in StatementPart", ⟨1, 10⟩⟩,
    [⟨.passage "StatementList", "error caught in StatementList", ⟨1, 10⟩⟩,
      ⟨.passage "Statement", "error caught in Statement", ⟨1, 10⟩⟩,
      ⟨.passage "IfStatement", "error caught in IfStatement", ⟨1, 10⟩⟩,
      ⟨.passage "Condition", "error caught in Condition", ⟨1, 10⟩⟩,
      ⟨.undeclared, "undeclared variable 'x'", ⟨1, 10⟩⟩]⟩

theorem fault_unwinds_undeclaredCondition :
    (analyse undeclaredCondition).outcome = .error (.fault undeclaredFault) ∧
      ∃ before token lookahead,
        ToldOf (analyse undeclaredCondition) undeclaredFault before token lookahead :=
  ⟨by rfl, fault_unwinds_open_productions (by rfl)⟩

end BlockLang
