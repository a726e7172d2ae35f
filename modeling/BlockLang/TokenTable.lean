import BlockLang.Grammar.Reader
import BlockLang.TokenType

/-!
# Token tables

A grammar file is accepted as the lexical part of a language if every keyword and operator that it
declares is known by its name, if each terminal symbol has a spelling or a class name, and if the
literal classes are declared. A terminal symbol is displayed by the last spelling that names it.

## Main definitions

* `TableError`: why a grammar file is not accepted
* `resolve what spellings`: the terminal symbols that some spellings name
* `TokenTable`: the spellings of the terminal symbols, and how each is displayed
* `TokenTable.ofGrammar file`, `TokenTable.load text`: the table of a grammar file

## Main results

* `resolveEntries_keys`: resolving keeps spellings and their order
-/

namespace BlockLang

/-- Why a grammar file is not accepted. -/
inductive TableError
  | unreadable (e : GrammarError)
  | unknownName (what spelling name : String)
  | undeclared (missing : List TokenType)
  | undeclaredClass (name : String)
  deriving DecidableEq, Repr

namespace TableError

/-- The message about a grammar file that is not accepted. -/
def message : TableError → String
  | unreadable e => e.message
  | unknownName what spelling name =>
    "Grammar " ++ what ++ " " ++ Text.quoted spelling ++ " needs TokenType." ++ name ++
      "; add it to tokens.py."
  | undeclared missing =>
    "TokenType members " ++ String.intercalate ", " (missing.map TokenType.name) ++
      " are not declared in the grammar's @lexical section."
  | undeclaredClass name =>
    "Literal class " ++ Text.quoted name ++ " is not declared in the grammar's @literals section."

end TableError

/-- The terminal symbols that some spellings name; the first unknown name is refused. -/
def resolveEntries (what : String) :
    List (String × String) → Except TableError (List (String × TokenType))
  | [] => .ok []
  | (spelling, name) :: rest =>
    match TokenType.ofName? name with
    | none => .error (.unknownName what spelling name)
    | some t => (resolveEntries what rest).map ((spelling, t) :: ·)

/-- The terminal symbols that some spellings name. -/
def resolve (what : String) (spellings : Dictionary String String) :
    Except TableError (Dictionary String TokenType) :=
  (resolveEntries what spellings.entries).map Dictionary.mk

/-- Resolving keeps spellings and their order. -/
theorem resolveEntries_keys {what : String} {l : List (String × String)}
    {r : List (String × TokenType)} (h : resolveEntries what l = .ok r) :
    r.map Prod.fst = l.map Prod.fst := by
  induction l generalizing r with
  | nil =>
    simp only [resolveEntries, Except.ok.injEq] at h
    simp [← h]
  | cons entry rest ih =>
    obtain ⟨spelling, name⟩ := entry
    simp only [resolveEntries] at h
    split at h
    · simp at h
    · cases hr : resolveEntries what rest with
      | error e => rw [hr] at h; simp [Except.map] at h
      | ok r' =>
        rw [hr] at h
        simp only [Except.map, Except.ok.injEq] at h
        simp [← h, ih hr]

/-- The spellings of the terminal symbols, and how each is displayed. -/
structure TokenTable where
  keywords : Dictionary String TokenType
  operators : Dictionary String TokenType
  displayNames : List (TokenType × String)
  deriving DecidableEq, Repr

namespace TokenTable

/-- The last spelling of a terminal symbol in a table. -/
def lastSpelling? (t : TokenType) (table : Dictionary String TokenType) : Option String :=
  (table.entries.reverse.find? fun entry => entry.2 == t).map Prod.fst

/-- How a terminal symbol is displayed: operators come before keywords, keywords before classes. -/
def displayName? (keywords operators : Dictionary String TokenType) (t : TokenType) : Option String :=
  ((lastSpelling? t operators).or (lastSpelling? t keywords)).or t.className?

/-- The literal classes in their order. -/
def literalTypes : List TokenType := TokenType.all.filter TokenType.isLiteral

/-- The table of a grammar file. -/
def ofGrammar (file : GrammarFile) : Except TableError TokenTable := do
  let keywords ← resolve "keyword" file.keywords
  let operators ← resolve "operator" file.operators
  let display := displayName? keywords operators
  let missing := TokenType.all.filter fun t => (display t).isNone
  if missing ≠ [] then throw (.undeclared missing)
  match literalTypes.find? fun t => !file.literals.contains ((display t).getD "") with
  | some t => throw (.undeclaredClass ((display t).getD ""))
  | none => pure ⟨keywords, operators, TokenType.all.map fun t => (t, (display t).getD "")⟩

/-- The table of a grammar file in its text. -/
def load (text : String) : Except TableError TokenTable :=
  match GrammarFile.read text with
  | .error e => .error (.unreadable e)
  | .ok file => ofGrammar file

end TokenTable

end BlockLang
