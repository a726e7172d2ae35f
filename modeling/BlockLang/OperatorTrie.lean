import BlockLang.TokenType

/-!
# Operator tries

A trie of operator spellings answers which of them begins a text and is longest. A node holds the
terminal symbol of the spelling that ends at it, if one does, and a branch for each character that
continues a spelling.

## Main definitions

* `OperatorTrie.insert`: adds a spelling
* `OperatorTrie.build spellings`: the trie of some operators of the language, refused if one of the
  spellings is none
* `OperatorTrie.longest? trie cs`: the longest spelling that begins `cs`
* `OperatorTrie.standard`: the trie of all operators of the language

## Main results

* `OperatorTrie.child?_setChild`: a branch that was set is found again
-/

namespace BlockLang

/-- A node of a trie: the terminal symbol of the spelling that ends here, and the branches. -/
inductive OperatorTrie
  | node (ends : Option TokenType) (branches : List (Char × OperatorTrie))

namespace OperatorTrie

/-- The trie without spellings. -/
def empty : OperatorTrie := node none []

/-- The terminal symbol of the spelling that ends at the root. -/
def ends : OperatorTrie → Option TokenType
  | node t _ => t

/-- The branches of the root. -/
def branches : OperatorTrie → List (Char × OperatorTrie)
  | node _ b => b

/-- The branch of a character. -/
def child? (c : Char) : List (Char × OperatorTrie) → Option OperatorTrie
  | [] => none
  | (d, t) :: rest => if d = c then some t else child? c rest

/-- Sets the branch of a character, at its place or at the end. -/
def setChild (c : Char) (child : OperatorTrie) :
    List (Char × OperatorTrie) → List (Char × OperatorTrie)
  | [] => [(c, child)]
  | (d, t) :: rest => if d = c then (d, child) :: rest else (d, t) :: setChild c child rest

/-- A branch that was set is found again, and the others are as before. -/
theorem child?_setChild (c d : Char) (child : OperatorTrie)
    (l : List (Char × OperatorTrie)) :
    child? d (setChild c child l) = if d = c then some child else child? d l := by
  induction l with
  | nil => simp [setChild, child?, eq_comm]
  | cons entry rest ih => grind [setChild, child?]

/-- Adds the spelling `cs` of the terminal symbol `t`. -/
def insert (t : TokenType) : List Char → OperatorTrie → OperatorTrie
  | [], node _ b => node (some t) b
  | c :: cs, node e b => node e (setChild c (insert t cs ((child? c b).getD empty)) b)

/-- The longest spelling that begins a text, as its terminal symbol and its length. -/
def longest? : OperatorTrie → List Char → Option (TokenType × Nat)
  | node e _, [] => e.map (·, 0)
  | node e b, c :: cs =>
    match (child? c b).bind (longest? · cs) with
    | some (t, n) => some (t, n + 1)
    | none => e.map (·, 0)

/-- A spelling that is no operator of the language. -/
structure UnknownOperator where
  spelling : String
  deriving DecidableEq, Repr

/-- Adds the spellings in turn; the first that is no operator of the language is refused. -/
def insertAll : List String → OperatorTrie → Except UnknownOperator OperatorTrie
  | [], trie => .ok trie
  | spelling :: rest, trie =>
    match operators.find? spelling with
    | some t => insertAll rest (trie.insert t spelling.toList)
    | none => .error ⟨spelling⟩

/-- The trie of some operators of the language. -/
def build (spellings : List String) : Except UnknownOperator OperatorTrie :=
  insertAll spellings empty

/-- The trie of all operators of the language. -/
def standard : OperatorTrie :=
  operators.entries.foldl (fun trie entry => trie.insert entry.2 entry.1.toList) empty

end OperatorTrie

end BlockLang
