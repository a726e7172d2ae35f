import BlockLang.Dictionary
import BlockLang.Grammar.Block
import BlockLang.Grammar.Comment
import BlockLang.Grammar.OperatorName
import BlockLang.Text.Matches
import BlockLang.Text.Uppercase
import BlockLang.Text.Word

/-!
# Reading a grammar file

A grammar file has a section `@lexical` with the keywords, the operators and the literal classes of
a language; all around it are its productions. Keywords are words, operators are double-quoted, a
literal class is a name with a pattern in slashes, and a production is a capitalised name at the
start of a line with an equals sign behind it.

## Main definitions

* `wordAt`, `operatorAt`, `literalAt`, `productionAt`: recognise the items of a grammar file
* `GrammarFile`: what a grammar file declares
* `GrammarError`: why a grammar file cannot be read
* `GrammarFile.read text`: reads a grammar file

## Main results

* `GrammarFile.exists_of_read`: where the items of a file that is read come from
-/

namespace BlockLang.Grammar

/-! ## Items -/

/-- The character can begin the name of a keyword or a literal class. -/
def isNameStart (c : Char) : Bool := c.isAlpha || c == '_'

/-- The name at the front of a text whose first character is of some sort. -/
def nameAt (isStart : Char → Bool) : List Char → Option (List Char × List Char)
  | [] => none
  | c :: cs =>
    if isStart c then some (c :: cs.takeWhile Text.isWordChar, cs.dropWhile Text.isWordChar)
    else none

/-- What stands behind blanks and a character, if the text begins with them. -/
def afterBlanksAnd (mark : Char) (cs : List Char) : Option (List Char) :=
  match cs.dropWhile Text.isBlank with
  | c :: rest => if c = mark then some rest else none
  | [] => none

/-- Recognises a word. -/
def wordAt : Text.Recogniser String := fun _ cs =>
  (nameAt isNameStart cs).map fun (word, _) => (String.ofList word, word.length)

/-- Recognises an operator: a quoted run that is not empty. -/
def operatorAt : Text.Recogniser String := fun _ cs =>
  match cs with
  | '"' :: rest =>
    let run := rest.takeWhile (· != '"')
    if run = [] then none
    else
      match rest.drop run.length with
      | '"' :: _ => some (String.ofList run, run.length + 2)
      | _ => none
  | _ => none

/-- The pattern at the front of a text: a backslash takes the next character with it, and neither a
slash nor the end of a line belongs to a pattern. -/
def patternBody : List Char → List Char
  | [] => []
  | '\\' :: c :: cs => if c = '\n' then [] else '\\' :: c :: patternBody cs
  | c :: cs => if c = '/' ∨ c = '\\' ∨ c = '\n' then [] else c :: patternBody cs

/-- Recognises a literal class: its name, an equals sign, and its pattern in slashes. -/
def literalAt : Text.Recogniser (String × String) := fun _ cs => do
  let (name, rest) ← nameAt isNameStart cs
  let rest ← afterBlanksAnd '=' rest
  let rest ← afterBlanksAnd '/' rest
  let pattern := patternBody rest
  match rest.drop pattern.length with
  | '/' :: rest =>
    some ((String.ofList name, String.ofList pattern), cs.length - rest.length)
  | _ => none

/-- Recognises a production at the start of a line: blanks, which may be whole lines, its name, and
an equals sign. -/
def productionAt : Text.Recogniser String := fun previous cs =>
  if previous.getD '\n' = '\n' then do
    let (name, rest) ← nameAt Char.isUpper (cs.dropWhile Text.isBlank)
    let rest ← afterBlanksAnd '=' rest
    some (String.ofList name, cs.length - rest.length)
  else none

/-- Longer spellings come first, those of one length in the order of their characters. -/
def spellingOrder (a b : String) : Bool :=
  a.length > b.length || (a.length == b.length && decide (a ≤ b))

end BlockLang.Grammar

namespace BlockLang

/-! ## The file -/

/-- What a grammar file declares: the keywords and operators with their names, the operators as they
were listed, the patterns of the literal classes, and the productions. -/
structure GrammarFile where
  keywords : Dictionary String String
  operatorList : List String
  operators : Dictionary String String
  literals : Dictionary String String
  productions : List String
  deriving DecidableEq, Repr

/-- Why a grammar file cannot be read. -/
inductive GrammarError
  | noLexicalSection
  | unnamedChar (e : Grammar.UnnamedChar)
  deriving DecidableEq, Repr

namespace GrammarError

/-- The message about a grammar file that cannot be read. -/
def message : GrammarError → String
  | noLexicalSection => "No @lexical section found in grammar"
  | unnamedChar e => e.message

end GrammarError

namespace GrammarFile

open Grammar

/-- The names of some operators; the first with a character that has no name is refused. -/
def nameOperators : List String → Except UnnamedChar (List (String × String))
  | [] => .ok []
  | spelling :: rest =>
    match operatorName spelling with
    | .ok name => (nameOperators rest).map ((spelling, name) :: ·)
    | .error e => .error e

/-- The body of a section, empty if there is none. -/
def section? (marker : String) (cs : List Char) : List Char :=
  ((block? marker cs).map Block.body).getD []

/-- The keywords that a text lists. -/
def readKeywords (cs : List Char) : List String :=
  Text.matchesIn wordAt (withoutLineComments cs)

/-- The operators that a text lists, in the order of spellings. -/
def readOperators (cs : List Char) : List String :=
  (Text.matchesIn operatorAt (withoutLineComments cs)).mergeSort spellingOrder

/-- Reads a grammar file. -/
def read (text : String) : Except GrammarError GrammarFile :=
  let cs := withoutBlockComments text.toList
  match block? "@lexical" cs with
  | none => .error .noLexicalSection
  | some lexical =>
    let operators := readOperators (section? "@operators" lexical.body)
    match nameOperators operators with
    | .error e => .error (.unnamedChar e)
    | .ok named =>
      .ok {
        keywords := .ofList
          ((readKeywords (section? "@keywords" lexical.body)).map fun k => (k, Text.upper k))
        operatorList := operators
        operators := .ofList named
        literals := .ofList (Text.matchesIn literalAt (section? "@literals" lexical.body))
        productions := Text.matchesIn productionAt (lexical.before ++ lexical.after) }

/-- The items of a file that is read are those of its section `@lexical`, and its operators have
names. -/
theorem exists_of_read {text : String} {file : GrammarFile} (h : read text = .ok file) :
    ∃ lexical named, block? "@lexical" (withoutBlockComments text.toList) = some lexical ∧
      file.operatorList = readOperators (section? "@operators" lexical.body) ∧
      nameOperators file.operatorList = .ok named ∧ file.operators = .ofList named ∧
      file.keywords = .ofList
        ((readKeywords (section? "@keywords" lexical.body)).map fun k => (k, Text.upper k)) := by
  unfold read at h
  simp only at h
  split at h
  · cases h
  · next lexical found =>
    split at h
    · cases h
    · next named names =>
      cases h
      exact ⟨lexical, named, found, rfl, names, rfl, rfl⟩

/-- The keywords in the order of their characters. -/
def sortedKeywords (g : GrammarFile) : List String :=
  g.keywords.keys.mergeSort fun a b => decide (a ≤ b)

end GrammarFile

end BlockLang
