import BlockLang.Cause
import BlockLang.Production
import BlockLang.TokenStream
import BlockLang.Trace.Sink

/-!
# The analyser's moves

The analyser looks one token ahead. It keeps the open scopes, the sum that is being read, the sink
of its trace, and notices about loop scopes. A run stops at the first fault, at a lexical error, or
when too many productions are open. Unless another sink is asked for, the trace is recorded.

## Main definitions

* `Notice`: a loop scope was opened or closed
* `Stop`: why a run ended early
* `AnalyserState σ`: the lookahead, the tokens after it, and what is kept, with a sink of type `σ`
* `AnalyserTo σ α`: a move of the analyser with an answer
* `accept`, `reject`: takes the lookahead, refuses it
* `requireDeclared`, `declare`, `inLoopScope`: moves on the scopes
* `beginTerm`, `recordTerm`, `inFreshChain`: moves on the sum that is being read
* `within p body`: `body` as the production `p`, with its entries in the trace
-/

namespace BlockLang

/-- A loop scope was opened or closed. -/
inductive Notice
  | entered (depth : Nat)
  | left (depth : Nat) (removed : Nat)
  deriving DecidableEq, Repr

/-- Why a run ended early. -/
inductive Stop
  | fault (fault : Fault)
  | lexical (error : LexicalError)
  | tooDeep
  deriving DecidableEq, Repr

/-- The lookahead, the tokens after it, and what is kept during a run. -/
structure AnalyserState (σ : Type := Array Event) where
  lookahead : Token
  input : TokenStream
  scopes : Scopes
  chain : OperandChain
  events : σ
  notices : Array Notice

variable {σ : Type} [TraceSink σ]

namespace AnalyserState

/-- The state with one more entry in the trace. -/
def emit (s : AnalyserState σ) (e : Event) : AnalyserState σ :=
  { s with events := TraceSink.tell s.events e }

/-- The state with one more notice. -/
def notify (s : AnalyserState σ) (n : Notice) : AnalyserState σ :=
  { s with notices := s.notices.push n }

end AnalyserState

/-- A move of the analyser that tells its trace to a sink: it changes the state and answers, or it
stops the run. -/
abbrev AnalyserTo (σ α : Type) := EStateM Stop (AnalyserState σ) α

/-- A move of the analyser that records its trace. -/
abbrev Analyser (α : Type) := AnalyserTo (Array Event) α

namespace Analyser

/-! ## Tokens and faults -/

/-- The lookahead. -/
def lookahead : AnalyserTo σ Token := fun s => .ok s.lookahead s

/-- The lookahead has a type of some sort. -/
def lookingAt (p : TokenType → Bool) : AnalyserTo σ Bool := fun s => .ok (p s.lookahead.type) s

/-- Stops the run with a fault at a token. -/
def rejectAt {α : Type} (token : Token) (cause : Cause) : AnalyserTo σ α := fun s =>
  let report : FaultReport := ⟨token, cause.message, some cause.kind, none⟩
  .error (.fault report.fault) (s.emit report.event)

/-- Stops the run with a fault at the lookahead. -/
def reject {α : Type} (cause : Token → Cause) : AnalyserTo σ α := fun s =>
  rejectAt s.lookahead (cause s.lookahead) s

/-- Takes the lookahead, which has to be of a type, and looks at the next token. -/
def accept (wanted : TokenType) : AnalyserTo σ Token := fun s =>
  if s.lookahead.type = wanted then
    match s.input.pull with
    | (.ok next, input) =>
      .ok s.lookahead { s.emit (.terminal s.lookahead) with lookahead := next, input := input }
    | (.error e, input) =>
      .error (.lexical e) { s.emit (.terminal s.lookahead) with input := input }
  else reject (.expected wanted) s

/-- Takes the lookahead, which has to be of a type, and asks no more of it. -/
def expect (wanted : TokenType) : AnalyserTo σ Unit := do
  let _ ← accept wanted

/-- Refuses a lookahead that does not have a type of some sort. -/
def require (p : TokenType → Bool) (cause : Token → Cause) : AnalyserTo σ Unit := do
  unless ← lookingAt p do reject cause

/-! ## Scopes -/

/-- The type of the lookahead if it is an identifier, which then has to be declared. -/
def requireDeclared : AnalyserTo σ ValueType := fun s =>
  if s.lookahead.type = .identifier then
    match s.scopes.lookup s.lookahead.value with
    | some v => .ok v.type s
    | none => reject (fun t => .undeclared t.value) s
  else .ok .unknown s

/-- The type of the operand that a token stands for. -/
def typeOf (token : Token) : AnalyserTo σ ValueType := fun s => .ok (operandType s.scopes token) s

/-- Declares a variable in the innermost open scope. -/
def declare (v : Variable) : AnalyserTo σ Unit := fun s =>
  .ok () ({ s with scopes := s.scopes.declare v.identifier v }.emit (.add v))

/-- Opens a loop scope. -/
def enterLoop (s : AnalyserState σ) : AnalyserState σ :=
  let scopes := s.scopes.enter
  { s with scopes := scopes }.notify (.entered scopes.depth)

/-- Closes the innermost loop scope and drops its variables. -/
def leaveLoop (s : AnalyserState σ) : AnalyserState σ :=
  let depth := s.scopes.depth
  match s.scopes.leave? with
  | none => s
  | some (removed, scopes) =>
    { s with
      scopes := scopes
      events := tellAll s.events (removed.map Event.remove) }.notify (.left depth removed.length)

/-- Runs `body` in a loop scope of its own. A run that stops in `body` drops the scope without a
word. -/
def inLoopScope {α : Type} (body : AnalyserTo σ α) : AnalyserTo σ α := fun s =>
  let depth := s.scopes.depth
  match body (enterLoop s) with
  | .ok a t => .ok a (leaveLoop t)
  | .error stop t => .error stop { t with scopes := t.scopes.restore depth }

/-! ## Sums -/

/-- Begins to read a sum. -/
def beginChain : AnalyserTo σ Unit := fun s => .ok () { s with chain := .fresh }

/-- Begins a term of the sum. -/
def beginTerm : AnalyserTo σ Unit := fun s => .ok () { s with chain := s.chain.enter }

/-- Takes the type of the term. -/
def recordTerm (t : ValueType) : AnalyserTo σ Unit := fun s =>
  .ok () { s with chain := s.chain.record t }

/-- Checks the last two terms of the sum against the operator between them. -/
def checkSum (join : Option Join) : AnalyserTo σ Unit := fun s =>
  match join.bind fun j => (s.chain.additiveMismatch? j.operator).map (j.operand, ·) with
  | some (token, mismatch) => rejectAt token (.mismatch mismatch) s
  | none => .ok () s

/-- Checks a factor on one side of an operator; a fault stands at `token`. -/
def checkFactor (operator : TokenType) (t : ValueType) (side : String) (token : Token) :
    AnalyserTo σ Unit :=
  match multiplicativeMismatch? operator t side with
  | some mismatch => rejectAt token (.mismatch mismatch)
  | none => pure ()

/-- Runs `body` on a sum of its own, and comes back to the sum around it. -/
def inFreshChain {α : Type} (body : AnalyserTo σ α) : AnalyserTo σ α := fun s =>
  let chain := s.chain
  match body { s with chain := .fresh } with
  | .ok a t => .ok a { t with chain := chain }
  | .error stop t => .error stop { t with chain := chain }

/-! ## Productions -/

/-- Runs `body` as a production: the trace tells where it begins and ends, and a fault takes the
production along. -/
def within {α : Type} (p : Production) (body : AnalyserTo σ α) : AnalyserTo σ α := fun s =>
  match body (s.emit (.begin p.name)) with
  | .ok a t => .ok a (t.emit (.finish p.name))
  | .error (.fault cause) t =>
    let report : FaultReport :=
      ⟨t.lookahead, "error caught in " ++ p.name, some (.passage p.name), some cause⟩
    .error (.fault report.fault) ((t.emit report.event).emit (.finish p.name))
  | .error stop t => .error stop (t.emit (.finish p.name))

end Analyser

end BlockLang
