import BlockLang.Editor.Hover
import BlockLang.Editor.Outline
import BlockLang.Editor.Workspace

/-!
# Editor sessions

A session keeps what is known about the documents that are open, while their texts are kept by a
workspace. Opening, changing or saving a document analyses it anew and publishes its diagnostics;
closing it forgets it and publishes none. Questions about a document that is not open have empty
answers. A request is refused if a document is to be analysed whose URI is none, or whose text the
workspace does not have.

What is known is kept for each URI as it is written. A document that is opened is analysed with the
text that comes with the request, one that is changed or saved with the text that the workspace has.

## Main definitions

* `Session σ`: a workspace, and what is known about its documents
* `Request`, `Answer`, `Publication`: what is asked, what is answered, what is published
* `RequestError`: why a request is refused
* `Session.validate limit s uri text`: analyses a document and publishes its diagnostics
* `Session.handle limit W s request`: handles one request
* `Session.run limit W s requests`: handles requests in turn
-/

namespace BlockLang.Editor

variable {σ ε : Type}

/-- The documents as the workspace keeps them, and what is known about those that are open. -/
structure Session (σ : Type) where
  documents : σ
  known : Dictionary String DocumentAnalysis
  deriving Repr

/-- What an editor asks for. -/
inductive Request
  | opened (uri text : String)
  | changed (uri text : String)
  | saved (uri : String)
  | closed (uri : String)
  | symbols (uri : String)
  | hover (uri : String) (position : EditorPosition)
  deriving DecidableEq, Repr

/-- Why a request is refused: the URI is none, or the workspace has no text. -/
inductive RequestError (ε : Type)
  | uri (e : UriError)
  | source (e : ε)
  deriving DecidableEq, Repr

/-- What is answered to an editor. -/
inductive Answer
  | nothing
  | symbols (symbols : List Symbol)
  | hover (text : Option String)
  deriving DecidableEq, Repr

/-- The diagnostics that are published for a document. -/
structure Publication where
  uri : String
  diagnostics : List Diagnostic
  deriving DecidableEq, Repr

/-- What a request led to: the session after it, its answer, and what was published. -/
structure Handled (σ : Type) where
  session : Session σ
  answer : Answer
  published : List Publication
  deriving Repr

namespace Session

/-- The session before any request. -/
def empty (W : Workspace σ ε) : Session σ := ⟨W.empty, .empty⟩

/-- The documents that something is known about, in the order of their URIs. -/
def knownUris (s : Session σ) : List String := s.known.keys.mergeSort fun a b => decide (a ≤ b)

/-- Analyses the text of a document and publishes its diagnostics. -/
def validate (limit : Nat) (s : Session σ) (uri text : String) :
    Except (RequestError ε) (Handled σ) := do
  let analysis ← (analyseDocument limit uri text).mapError .uri
  pure {
    session := { s with known := s.known.insert uri analysis }
    answer := .nothing
    published := [⟨uri, analysis.diagnostics⟩] }

/-- Analyses a document with the text that the workspace has. -/
def revalidate (limit : Nat) (W : Workspace σ ε) (s : Session σ) (uri : String) :
    Except (RequestError ε) (Handled σ) := do
  let text ← (W.source s.documents uri).mapError .source
  s.validate limit uri text

/-- Handles one request, which the workspace is told of first. -/
def handle (limit : Nat) (W : Workspace σ ε) (s : Session σ) :
    Request → Except (RequestError ε) (Handled σ)
  | .opened uri text =>
    validate limit { s with documents := W.opened s.documents uri text } uri text
  | .changed uri text =>
    revalidate limit W { s with documents := W.changed s.documents uri text } uri
  | .saved uri => revalidate limit W s uri
  | .closed uri => .ok ⟨⟨W.closed s.documents uri, s.known.erase uri⟩, .nothing, [⟨uri, []⟩]⟩
  | .symbols uri => .ok ⟨s, .symbols (((s.known.find? uri).map outline).getD []), []⟩
  | .hover uri position =>
    .ok ⟨s, .hover ((s.known.find? uri).bind fun document => hover? document position), []⟩

/-- Handles requests in turn. -/
def run (limit : Nat) (W : Workspace σ ε) (s : Session σ) :
    List Request → Except (RequestError ε) (List (Handled σ))
  | [] => .ok []
  | request :: rest => do
    let handled ← s.handle limit W request
    let others ← handled.session.run limit W rest
    pure (handled :: others)

end Session

end BlockLang.Editor
