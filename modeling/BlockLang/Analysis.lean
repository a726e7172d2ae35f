import BlockLang.Rule

/-!
# Analysis

A program is analysed by its first production, and nothing may follow it. Productions open other
productions, and a limit bounds how many are open at once: beyond it a run stops. The limit of a
plain analysis is one that no program of its length can reach.

## Main definitions

* `analyser limit c`: the analysis of a production, with at most `limit` of them open
* `Analysis α`: what a run leaves behind
* `runFrom scopes move stream`: the run of a move on a stream
* `analyseWithin limit stream`: the analysis of a program under a limit
* `analyse stream`: the analysis of a program
* `analyseWithin limit stream σ`, `analyse stream σ`: the same with another sink than a recording one
* `depthLimit`: the limit that the tools set

## Main results

* `analyser_zero`, `analyser_succ`: each open production takes one from the limit
-/

namespace BlockLang

variable {σ : Type} [TraceSink σ]

/-- The analysis of a production, with at most `limit` of them open at once. -/
def analyser : (limit : Nat) → Callee σ
  | 0, _ => throw .tooDeep
  | limit + 1, c => Analyser.within c.production (rule (analyser limit) c)

theorem analyser_zero (c : Call) : analyser (σ := σ) 0 c = throw .tooDeep := rfl

/-- Each open production takes one from the limit. -/
theorem analyser_succ (limit : Nat) (c : Call) :
    analyser (σ := σ) (limit + 1) c = Analyser.within c.production (rule (analyser limit) c) := rfl

/-- The analysis of a whole program, which nothing may follow. -/
def program (limit : Nat) : AnalyserTo σ Unit := do
  analyser limit .statementPart
  Analyser.require (· == .endOfFile) .trailing

/-- What a run leaves behind: how it ended, where it stood, and what was kept. There is no lookahead
if the first token was an error. -/
structure Analysis (α : Type) (σ : Type := Array Event) where
  outcome : Except Stop α
  lookahead : Option Token
  scopes : Scopes
  chain : OperandChain
  events : σ
  notices : Array Notice

namespace Analysis

/-- What a run leaves behind when it ends in a state. -/
def ofState {α : Type} (outcome : Except Stop α) (s : AnalyserState σ) : Analysis α σ :=
  ⟨outcome, some s.lookahead, s.scopes, s.chain, s.events, s.notices⟩

/-- What a result leaves behind. -/
def ofResult {α : Type} : EStateM.Result Stop (AnalyserState σ) α → Analysis α σ
  | .ok a s => ofState (.ok a) s
  | .error stop s => ofState (.error stop) s

/-- What a run leaves behind whose first token is an error. -/
def unlexed {α : Type} (scopes : Scopes) (e : LexicalError) : Analysis α σ :=
  ⟨.error (.lexical e), none, scopes, .fresh, TraceSink.start, #[]⟩

end Analysis

/-- The run of a move from the first token of a stream, with some scopes open. -/
def runFrom {α : Type} (scopes : Scopes) (move : AnalyserTo σ α) (stream : TokenStream) :
    Analysis α σ :=
  match stream.pull with
  | (.error e, _) => .unlexed scopes e
  | (.ok first, input) => .ofResult (move ⟨first, input, scopes, .fresh, TraceSink.start, #[]⟩)

/-- The analysis of a program with at most `limit` productions open at once. -/
def analyseWithin (limit : Nat) (stream : TokenStream) (σ : Type := Array Event) [TraceSink σ] :
    Analysis Unit σ :=
  runFrom .empty (program limit) stream

/-- The analysis of a program: no run opens more than three productions for each token that it
accepts, and one more. -/
def analyse (stream : TokenStream) (σ : Type := Array Event) [TraceSink σ] : Analysis Unit σ :=
  analyseWithin (3 * stream.items.length + 1) stream σ

/-- The number of open productions that the tools allow. -/
def depthLimit : Nat := 4990

end BlockLang
