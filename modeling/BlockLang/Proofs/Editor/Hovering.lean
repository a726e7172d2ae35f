import BlockLang.Proofs.Editor.Places
import BlockLang.Proofs.Scoping.Assignments
import BlockLang.Proofs.Scoping.Outside

/-!
# Hovering and the analysis

An editor shows the type of the latest declaration of a name up to the place where the pointer
rests, while the analysis goes by scopes and by the order of execution. An assignment declares its
target behind its value, though the target stands before it. Both find the same type as long as the
name was not declared in a loop: what is declared between a use and its look-up by place is the
target of the assignment around it, which has the type of everything in its value.

## Main definitions

* `Unfound a t before left`: the analysis stopped at an identifier that is not declared
* `ChecksToken limit stream before t u`: the analysis asks for a declaration of the token in `u`
* `HoverTells limit source d`: hovering over a document shows the types that its analysis used

## Main results

* `type_eq_of_added_behind`: what is declared behind a use, but stands before it, has its type
* `latestDeclaration?_of_used`, `latestDeclaration?_of_undeclared`: what is found by place
* `hover_tells_type_of_analysis`: hovering shows the types that the analysis used
-/

namespace BlockLang

open Analyser Editor

variable {V : AnalyserState → Prop} {limit : Nat} {stream : TokenStream} {source : String}
  {tokens : List Token} {events before after : List Event} {t : Token} {v w : Variable}
  {position : Position}

/-! ## Declarations by place -/

theorem latestDeclaration?_append (es fs : List Event) (name : String) (position : Position) :
    latestDeclaration? (es ++ fs) name position =
      (latestDeclaration? fs name position).or (latestDeclaration? es name position) := by
  rw [latestDeclaration?, declared_append, List.filter_append, List.getLast?_append]
  rfl

theorem of_latestDeclaration?_eq_some {name : String}
    (h : latestDeclaration? events name position = some v) :
    v ∈ declared events ∧ v.identifier = name ∧ v.position ≤ position := by
  have hv := List.mem_of_getLast? h
  simpa only [List.mem_filter, decide_eq_true_eq] using hv

/-- What is declared stands before what is taken later. -/
theorem position_lt_of_mem_declared (h : AllExplained V (before ++ after))
    (order : ∀ u ∈ accepted before, u.position < position) (hv : v ∈ declared before) :
    v.position < position := by
  obtain ⟨front, rest, rfl⟩ := exists_split_of_mem_declared hv
  obtain ⟨outer, target, inside, rfl, assigned⟩ :=
    h front (.add v) (rest ++ after) (by rw [List.append_assoc, List.cons_append])
  rw [assigned.position_eq]
  exact order target (by simp [accepted_terminal_cons])

/-- What the trace up to a place declares of a name, if the name is not declared in a loop, is found
by place too. -/
theorem lookup_replay_eq_latestDeclaration? (h : AllExplained V (before ++ after))
    (paired : Paired (before ++ after)) {name : String}
    (outside : Outside (before ++ after) name position)
    (order : ∀ u ∈ accepted before, u.position < position) :
    (replay .empty before).lookup name = latestDeclaration? before name position := by
  have earlier (v : Variable) (hv : v ∈ declared before) : v.position ≤ position :=
    Position.le_of_lt (position_lt_of_mem_declared h order hv)
  rw [lookup_replay_of_outside fun front v rest split same => ?_]
  · refine congrArg _ (List.filter_congr fun v hv => ?_)
    simp [earlier v hv]
  · subst split
    obtain ⟨left, opens⟩ : ∃ left, opened [] front = some left := by
      have whole := paired []
      rw [List.append_assoc, opened_append, Option.bind_eq_some_iff] at whole
      exact ⟨_, whole.choose_spec.1⟩
    refine loops_replay_eq_nil opens (outside front v (rest ++ after) ?_ same ?_)
    · rw [List.append_assoc, List.cons_append]
    · exact earlier v (by simp [declared, Event.declared?])

/-- What is declared behind the use of a name, but stands before it or at it, is the target of an
assignment whose value the name is used in, and it has the type of the name. -/
theorem type_eq_of_added_behind (h : AllExplained V (before ++ .terminal t :: after))
    (order : ∀ u ∈ accepted after, t.position < u.position) (identifier : t.type = .identifier)
    (inside : ∃ p : Production, p.reads ∧ p.name ∈ openProductions before)
    (found : (replay .empty before).lookup t.value = some v) (hw : w ∈ declared after)
    (le : w.position ≤ t.position) : w.type = v.type := by
  obtain ⟨front, rest, rfl⟩ := exists_split_of_mem_declared hw
  obtain ⟨outer, target, value, split, assigned⟩ :=
    h (before ++ .terminal t :: front) (.add w) rest (by simp)
  have aside (same : outer = before) : False := by
    obtain ⟨p, reads, opens⟩ := inside
    exact assigned.aside p reads (same ▸ opens)
  rcases List.append_eq_append_iff.mp split with ⟨middle, rfl, rest_eq⟩ | ⟨middle, rfl, rest_eq⟩
  · -- The target would stand behind the use.
    cases middle with
    | nil => exact (aside (List.append_nil _)).elim
    | cons e middle =>
      obtain ⟨-, rfl⟩ := List.cons.inj rest_eq
      have later := order target (by simp [accepted_terminal_cons])
      rw [assigned.position_eq] at le
      exact absurd le (Position.not_le_of_lt later)
  · cases middle with
    | nil => exact (aside (List.append_nil _).symm).elim
    | cons e middle =>
      -- The name is used in the value.
      obtain ⟨rfl, rfl⟩ := List.cons.inj rest_eq
      obtain ⟨x, hx, type_eq⟩ := assigned.operands t (by simp [accepted_terminal_cons]) identifier
      have quiet : replay (replay .empty outer) middle = replay .empty outer :=
        replay_of_quiet fun e he => assigned.quiet e (List.mem_append_left _ he)
      have same : replay .empty (outer ++ .terminal target :: middle) = replay .empty outer := by
        rw [replay_append]
        exact quiet
      rw [same, hx] at found
      rw [← type_eq, Option.some.inj found]

/-- Hovering over a use finds a declaration of the type that the name had when it was used. -/
theorem latestDeclaration?_of_used (h : AllExplained V (before ++ .terminal t :: after))
    (paired : Paired (before ++ .terminal t :: after))
    (increasing : (accepted (before ++ .terminal t :: after)).Pairwise (·.position < ·.position))
    (identifier : t.type = .identifier)
    (inside : ∃ p : Production, p.reads ∧ p.name ∈ openProductions before)
    (outside : Outside (before ++ .terminal t :: after) t.value t.position)
    (found : (replay .empty before).lookup t.value = some v) :
    ∃ w, latestDeclaration? (before ++ .terminal t :: after) t.value t.position = some w ∧
      w.identifier = t.value ∧ w.type = v.type := by
  rw [accepted_append, accepted_terminal_cons, List.pairwise_append] at increasing
  obtain ⟨-, behind, ordered⟩ := increasing
  have earlier : (replay .empty before).lookup t.value =
      latestDeclaration? before t.value t.position :=
    lookup_replay_eq_latestDeclaration? h paired outside fun u hu =>
      ordered u hu t List.mem_cons_self
  rw [latestDeclaration?_append, ← earlier, found]
  cases later : latestDeclaration? (.terminal t :: after) t.value t.position with
  | none =>
    obtain ⟨-, same, -⟩ := of_latestDeclaration?_eq_some (earlier.symm.trans found)
    exact ⟨v, rfl, same, rfl⟩
  | some w =>
    obtain ⟨hw, same, le⟩ := of_latestDeclaration?_eq_some later
    have order (u : Token) (hu : u ∈ accepted after) : t.position < u.position :=
      (List.pairwise_cons.mp behind).1 u hu
    exact ⟨w, rfl, same, type_eq_of_added_behind h order identifier inside found hw le⟩

/-! ## Identifiers that are not declared -/

/-- What a stop on its way out reports is a passage. -/
theorem head_kind_of_mem_unwinding {lookahead : Token} {stop : Stop} {productions : List String}
    {f : Fault} (h : .error t f ∈ unwinding lookahead stop productions) :
    ∃ p, f.head.kind = .passage p := by
  induction productions generalizing stop with
  | nil => cases h
  | cons p productions ih =>
    rcases List.mem_append.mp h with h | h
    · cases stop with
      | fault cause =>
        rw [Stop.farewell, List.mem_cons, List.mem_singleton] at h
        rcases h with h | h
        · obtain ⟨-, rfl⟩ := Event.error.inj h
          exact ⟨p, rfl⟩
        · cases h
      | lexical | tooDeep => cases List.mem_singleton.mp h
    · exact ih h

/-- Where only errors and ends of productions are told, nothing is taken and nothing declared. -/
theorem accepted_and_declared_eq_nil (h : ∀ e ∈ after, e.kind = .error ∨ e.kind = .finish) :
    accepted after = [] ∧ declared after = [] := by
  have silent (e : Event) (he : e ∈ after) : e.accepted? = none ∧ e.declared? = none := by
    cases e with
    | error _ _ | finish _ => exact ⟨rfl, rfl⟩
    | begin _ | terminal _ | add _ | remove _ => rcases h _ he with kind | kind <;> cases kind
  exact ⟨List.filterMap_eq_nil_iff.mpr fun e he => (silent e he).1,
    List.filterMap_eq_nil_iff.mpr fun e he => (silent e he).2⟩

/-- The analysis refused an identifier for want of a declaration: the token that it stopped at. What
it told before declares no such name, and behind it nothing is taken and nothing declared. -/
structure Unfound (a : Analysis Unit) (t : Token) (before left : List Event) : Prop where
  events_eq : a.events.toList = before ++ left
  none_taken : accepted left = []
  none_added : declared left = []
  lookahead_eq : a.lookahead = some t
  identifier : t.type = .identifier
  unknown : (replay .empty before).lookup t.value = none

/-- An identifier at which an undeclared variable is reported was refused. -/
theorem exists_unfound {f : Fault} (told : .error t f ∈ (analyseWithin limit stream).events.toList)
    (undeclared : f.head.kind = .undeclared) :
    ∃ before left, Unfound (analyseWithin limit stream) t before left := by
  revert told
  refine analyseWithin_cases
    (P := fun a => .error t f ∈ a.events.toList → ∃ before left, Unfound a t before left)
    (fun e told => ?_) (fun _ _ es u h told => ?_)
    fun _ _ stop u before origin said productions _ h told => ?_
  · cases told
  · rw [h.accounts.events_eq, List.append_nil] at told
    exact absurd rfl (h.settled.errorFree _ told)
  · have accounts := h.accounts
    obtain ⟨none_taken, none_added⟩ := accepted_and_declared_eq_nil accounts.left_kinds
    rw [accounts.events_eq, List.mem_append, List.mem_append] at told
    rcases told with told | told | told
    · exact absurd rfl (h.unwinds.errorFree _ told)
    · have arises := h.unwinds.arises
      cases arises with
      | fault token cause stands =>
        obtain ⟨rfl, rfl⟩ := Event.error.inj (List.mem_singleton.mp told)
        -- Only a mismatch may stand anywhere else than at the lookahead.
        obtain rfl : t = u.lookahead := by
          refine stands.resolve_left fun mismatch => ?_
          cases mismatch.symm.trans undeclared
        obtain ⟨identifier, unknown, -, -⟩ := h.missing _ rfl undeclared
        exact ⟨before, _, accounts.events_eq, none_taken, none_added, rfl, identifier, unknown⟩
      | lexical | tooDeep => cases told
    · obtain ⟨p, passage⟩ := head_kind_of_mem_unwinding told
      cases passage.symm.trans undeclared

/-- Hovering over an identifier that was refused for want of a declaration finds none. -/
theorem latestDeclaration?_of_undeclared (h : AllExplained V (before ++ after))
    (paired : Paired (before ++ after)) (order : ∀ u ∈ accepted before, u.position < t.position)
    (outside : Outside (before ++ after) t.value t.position)
    (unknown : (replay .empty before).lookup t.value = none) (none_added : declared after = []) :
    latestDeclaration? (before ++ after) t.value t.position = none := by
  have later : latestDeclaration? after t.value t.position = none := by
    rw [latestDeclaration?, none_added]
    rfl
  rw [latestDeclaration?_append, later, Option.none_or,
    ← lookup_replay_eq_latestDeclaration? h paired outside order, unknown]

namespace Editor

/-! ## Documents -/

/-- The analysis of the stream, when the trace tells the entries, asks in the state for a declaration
of the token. -/
def ChecksToken (limit : Nat) (stream : TokenStream) (before : List Event) (t : Token)
    (u : AnalyserState) : Prop :=
  ∃ first input, stream.pull = (.ok first, input) ∧
    Checks limit .statementPart (program limit) (.start first input) u ∧
    u.lookahead = t ∧ u.trace = before

/-- What an editor shows of a name of a type. -/
def typeText (name : String) (type : ValueType) : String :=
  "\x60\x60\x60rgg\n" ++ name ++ ": " ++ type.name ++ "\n\x60\x60\x60"

/-- Hovering over the document shows the types that the analysis of its source used, as long as they
are those of names that were not declared in loops. An identifier that is accepted inside a factor,
a condition or a list of arguments was checked right before, and every character of it shows the
type of the variable that the check found. One that is refused for want of a declaration shows
nothing. -/
structure HoverTells (limit : Nat) (source : String) (d : DocumentAnalysis) : Prop where
  used : ∀ before t after, d.events = before ++ .terminal t :: after → t.type = .identifier →
    (∃ p : Production, p.reads ∧ p.name ∈ openProductions before) →
    Outside d.events t.value t.position →
    (∃ u, ChecksToken limit (.ofSource source) before t u) ∧
      ∀ u, ChecksToken limit (.ofSource source) before t u →
        ∃ v, u.scopes.lookup t.value = some v ∧
          ∀ k < t.value.length, hover? d (t.placeAt k) = some (typeText t.value v.type)
  undeclared : ∀ t f, .error t f ∈ d.events → f.head.kind = .undeclared →
    Outside d.events t.value t.position →
    ∀ k < t.value.length, hover? d (t.placeAt k) = none

/-- What is shown at a character of an identifier. -/
theorem hover?_placeAt {d : DocumentAnalysis} {k : Nat} (lexed : tokenize source = .ok tokens)
    (shown : d.tokens = some tokens) (ht : t ∈ tokens) (identifier : t.type = .identifier)
    (hk : k < t.value.length) : hover? d (t.placeAt k) =
      (latestDeclaration? d.events t.value t.position).map fun v => typeText v.identifier v.type := by
  rw [hover?, shown]
  simp only [Option.bind_eq_bind, Option.bind_some, tokenAt?_placeAt lexed ht hk, hoverText?,
    identifier, if_true]
  rfl

/-- A check looks a name up in what the trace declares. -/
theorem ChecksToken.lookup_eq {u : AnalyserState} (h : ChecksToken limit stream before t u)
    (name : String) : u.scopes.lookup name = (replay .empty before).lookup name := by
  obtain ⟨first, input, -, checks, -, rfl⟩ := h
  rw [checks.scopes_eq (.start first input), Declarations.lookup_scopes]

/-- The tokens that an analysis took of a source that is lexed, and the one where it stopped, stand
one behind the other. -/
theorem increasing_of_prefix {taken : List Token} (lexed : tokenize source = .ok tokens)
    (h : taken <+: tokens) : taken.Pairwise (·.position < ·.position) := by
  obtain ⟨pieces, tail, tiling⟩ := exists_tiling_of_tokenize lexed
  exact tiling.increasing.sublist h.sublist

/-- A document with a URI is analysed. -/
theorem analyseDocument_of_uriPath {uri path : String} (address : uriPath uri = .ok path) :
    analyseDocument limit uri source = .ok (analyseText limit uri source) := by
  rw [analyseDocument, address]
  rfl

/-- A document that is analysed has the analysis of its text. -/
theorem eq_analyseText_of_ok {uri : String} {d : DocumentAnalysis}
    (h : analyseDocument limit uri source = .ok d) : d = analyseText limit uri source := by
  cases address : uriPath uri with
  | error e =>
    rw [analyseDocument, address] at h
    cases h
  | ok path =>
    rw [analyseDocument_of_uriPath address] at h
    exact (Except.ok.inj h).symm

/-- What a document whose source is lexed has of its analysis. -/
theorem tokens_and_events_of_lexed {uri : String} {d : DocumentAnalysis}
    (lexed : tokenize source = .ok tokens) (h : analyseDocument limit uri source = .ok d) :
    d.tokens = some tokens ∧
      d.events = (analyseWithin limit (.ofSource source)).events.toList := by
  obtain rfl := eq_analyseText_of_ok h
  simp only [analyseText, lexed, true_and]

/-- Hovering over a document whose source is lexed shows the types that the analysis used. -/
theorem hover_tells_type_of_analysis {uri : String} {d : DocumentAnalysis}
    (lexed : tokenize source = .ok tokens) (h : analyseDocument limit uri source = .ok d) :
    HoverTells limit source d := by
  obtain ⟨shown, told⟩ := tokens_and_events_of_lexed lexed h
  obtain ⟨first, input, -, pulled, -, -, -⟩ := exists_reaches_of_lexed limit lexed
  have explained := explained_analyseWithin limit pulled
  have paired := paired_trace limit (.ofSource source)
  obtain ⟨next, lookahead, taken⟩ := exists_prefix_of_lexed limit lexed
  have increasing := increasing_of_prefix lexed taken
  rw [← told] at explained paired taken increasing
  constructor
  · intro before t after split identifier inside outside
    have ht : t ∈ tokens := taken.subset (by simp [split, accepted_terminal_cons])
    rw [split] at explained paired outside
    obtain ⟨⟨u, checks, looked, traced⟩, v, found⟩ :=
      explained before (.terminal t) after rfl identifier inside
    rw [split] at increasing
    obtain ⟨w, latest, named, typed⟩ := latestDeclaration?_of_used explained paired
      (increasing.sublist (List.sublist_append_left ..)) identifier inside outside found
    refine ⟨⟨u, first, input, pulled, checks, looked, traced⟩, fun u hu => ⟨v, ?_, fun k hk => ?_⟩⟩
    · rw [hu.lookup_eq, found]
    · rw [hover?_placeAt lexed shown ht identifier hk, split, latest, Option.map_some, named, typed]
  · intro t f refused undeclared outside k hk
    rw [told] at refused
    obtain ⟨before, left, stopped⟩ := exists_unfound refused undeclared
    have split : d.events = before ++ left := told.trans stopped.events_eq
    obtain rfl := Option.some.inj (lookahead.symm.trans stopped.lookahead_eq)
    have ht : next ∈ tokens := taken.subset (by simp)
    rw [split, accepted_append, stopped.none_taken, List.append_nil, List.pairwise_append]
      at increasing
    rw [split] at explained paired outside
    have latest := latestDeclaration?_of_undeclared explained paired
      (fun u hu => increasing.2.2 u hu next (List.mem_singleton_self next)) outside
      stopped.unknown stopped.none_added
    rw [hover?_placeAt lexed shown ht stopped.identifier hk, split, latest, Option.map_none]

/-- A string that is put together from itself and from what is not declared. -/
def strangeSum : String := "begin x := \"a\"; x := x + y end"

/-- The document of the string. -/
def strangeDocument : DocumentAnalysis :=
  analyseText depthLimit "file:///tmp/sum.rgg" strangeSum

theorem hover_tells_type_of_analysis_strangeSum :
    ∃ tokens, tokenize strangeSum = .ok tokens ∧
      analyseDocument depthLimit "file:///tmp/sum.rgg" strangeSum = .ok strangeDocument ∧
      HoverTells depthLimit strangeSum strangeDocument ∧
      (∃ before after,
        strangeDocument.events = before ++ .terminal ⟨.identifier, "x", ⟨1, 22⟩⟩ :: after ∧
        Production.factor.name ∈ openProductions before ∧
        Outside strangeDocument.events "x" ⟨1, 22⟩) ∧
      ∃ f, .error ⟨.identifier, "y", ⟨1, 26⟩⟩ f ∈ strangeDocument.events ∧
        f.head.kind = .undeclared ∧ Outside strangeDocument.events "y" ⟨1, 26⟩ := by
  obtain ⟨tokens, lexed⟩ : ∃ tokens, tokenize strangeSum = .ok tokens := by
    have ok : (tokenize strangeSum).isOk := by decide +kernel
    cases result : tokenize strangeSum with
    | ok tokens => exact ⟨tokens, rfl⟩
    | error e =>
      rw [result] at ok
      cases ok
  have analysed : analyseDocument depthLimit "file:///tmp/sum.rgg" strangeSum =
      .ok strangeDocument := by
    have address : uriPath "file:///tmp/sum.rgg" = .ok "/tmp/sum.rgg" := by decide +kernel
    rw [analyseDocument, address]
    rfl
  refine ⟨tokens, lexed, analysed, hover_tells_type_of_analysis lexed analysed, ?_, ?_⟩
  · exact ⟨strangeDocument.events.take 20, strangeDocument.events.drop 21, by decide +kernel,
      by decide +kernel, by decide +kernel⟩
  · exact ⟨.ofLink ⟨.undeclared, "undeclared variable 'y'", ⟨1, 26⟩⟩, by decide +kernel, rfl,
      by decide +kernel⟩

example : hover? strangeDocument ⟨0, 21⟩ =
    some "\x60\x60\x60rgg\nx: STRING\n\x60\x60\x60" := by
  decide +kernel

end Editor

end BlockLang
