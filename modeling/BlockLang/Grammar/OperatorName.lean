import BlockLang.Text.Quoted

/-!
# Operator names

The name of an operator has one component for each of its characters.

## Main definitions

* `charName? c`: the component of a character
* `operatorName spelling`: the name of an operator, refused if one of its characters has none

## Main results

* `charName?_injective`: components identify characters
-/

namespace BlockLang.Grammar

/-- The component that stands for a character. -/
def charName? : Char → Option String
  | '<' => "LT"
  | '>' => "GT"
  | '=' => "EQ"
  | ':' => "COLON"
  | '+' => "PLUS"
  | '-' => "MINUS"
  | '*' => "STAR"
  | '/' => "SLASH"
  | ';' => "SEMICOLON"
  | ',' => "COMMA"
  | '(' => "LPAREN"
  | ')' => "RPAREN"
  | _ => none

/-- A character of an operator that has no name. -/
structure UnnamedChar where
  char : Char
  operator : String
  deriving DecidableEq, Repr

namespace UnnamedChar

/-- The message about a character without a name. -/
def message (e : UnnamedChar) : String :=
  "No character name for " ++ Text.quoted e.char.toString ++ " in operator " ++
    Text.quoted e.operator ++ ". Add it to _CHAR_NAMES."

end UnnamedChar

/-- The components of some characters; the first that has none is refused. -/
def charNames : List Char → Except Char (List String)
  | [] => .ok []
  | c :: cs =>
    match charName? c with
    | none => .error c
    | some name => (charNames cs).map (name :: ·)

/-- The name of an operator. -/
def operatorName (spelling : String) : Except UnnamedChar String :=
  match charNames spelling.toList with
  | .ok names => .ok (String.intercalate "_" names)
  | .error c => .error ⟨c, spelling⟩

/-- Components identify characters. -/
theorem charName?_injective {c d : Char} {name : String} (hc : charName? c = some name)
    (hd : charName? d = some name) : c = d := by
  unfold charName? at hc hd
  split at hc <;> split at hd <;> simp_all <;> (subst hc; simp at hd)

end BlockLang.Grammar
