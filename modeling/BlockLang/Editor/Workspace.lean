import BlockLang.Dictionary

/-!
# Workspaces

The texts of documents are kept outside a session, by a workspace. It is told which documents are
opened, changed and closed, and is asked for the text of one. How it keeps the texts is its own
matter, and so is which URIs it takes for one document; a workspace that keeps what it was told has,
for each open document, the text that was told last through any of its URIs. Nothing is said of the
text of a document that is not open.

## Main definitions

* `Workspace σ ε`: what a session asks of a workspace
* `Workspace.Keeps W document kept`: the workspace keeps what it was told
* `Workspace.stored document unheld`: a workspace that keeps the texts in a dictionary

## Main results

* `Workspace.stored_keeps`: such a workspace keeps what it was told
-/

namespace BlockLang.Editor

variable {σ ε : Type}

/-- Texts of documents that are kept somewhere. -/
structure Workspace (σ ε : Type) where
  /-- Nothing was told yet. -/
  empty : σ
  /-- A document is opened with a text. -/
  opened : σ → String → String → σ
  /-- The text of an open document is replaced. -/
  changed : σ → String → String → σ
  /-- A document is closed. -/
  closed : σ → String → σ
  /-- The text of a document. -/
  source : σ → String → Except ε String

namespace Workspace

/-- The workspace keeps what it was told: `document` tells which document a URI stands for, and
`kept` which text is kept for a document. -/
structure Keeps (W : Workspace σ ε) (document : String → String)
    (kept : σ → String → Option String) : Prop where
  /-- At first nothing is kept. -/
  empty : ∀ d, kept W.empty d = none
  /-- A document that is opened has the text that it is opened with; others have theirs. -/
  opened : ∀ s uri text d,
    kept (W.opened s uri text) d = if d = document uri then some text else kept s d
  /-- An open document that is changed has the new text; others have theirs. -/
  changed : ∀ s uri text d, (kept s (document uri)).isSome →
    kept (W.changed s uri text) d = if d = document uri then some text else kept s d
  /-- Nothing is kept for a document that is closed; others have their texts. -/
  closed : ∀ s uri d, kept (W.closed s uri) d = if d = document uri then none else kept s d
  /-- The text that is kept is given back. -/
  source : ∀ s uri text, kept s (document uri) = some text → W.source s uri = .ok text

/-- A workspace that keeps the texts in a dictionary; `unheld` tells the text of a document that is
not open. -/
def stored (document : String → String) (unheld : String → Except ε String) :
    Workspace (Dictionary String String) ε where
  empty := .empty
  opened texts uri text := texts.insert (document uri) text
  changed texts uri text := texts.insert (document uri) text
  closed texts uri := texts.erase (document uri)
  source texts uri :=
    match texts.find? (document uri) with
    | some text => .ok text
    | none => unheld uri

/-- A dictionary keeps what it was told. -/
theorem stored_keeps (document : String → String) (unheld : String → Except ε String) :
    (stored document unheld).Keeps document Dictionary.find? where
  empty := Dictionary.find?_empty
  opened texts uri text d := Dictionary.find?_insert texts (document uri) d text
  changed texts uri text d _ := Dictionary.find?_insert texts (document uri) d text
  closed texts uri d := Dictionary.find?_erase texts (document uri) d
  source texts uri text held := by simp only [stored, held]

end Workspace

end BlockLang.Editor
