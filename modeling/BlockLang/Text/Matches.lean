/-!
# Matches

All places in a text where something is recognised, from the left and without overlap. What is
recognised at a place may depend on the character before it.

## Main definitions

* `Recogniser α`: recognises something at the front of a text, and tells how long it is
* `matchesIn recognise cs`: what is recognised in `cs`
-/

namespace BlockLang.Text

/-- Recognises something at the front of a text, given the character before it, and tells how many
characters it takes. -/
abbrev Recogniser (α : Type) := Option Char → List Char → Option (α × Nat)

/-- What is recognised in a text, of which the first `skip` characters are taken already. -/
def matchesFrom {α : Type} (recognise : Recogniser α) : Nat → Option Char → List Char → List α
  | _, _, [] => []
  | skip + 1, _, c :: cs => matchesFrom recognise skip (some c) cs
  | 0, previous, c :: cs =>
    match recognise previous (c :: cs) with
    | some (a, length) => a :: matchesFrom recognise (length - 1) (some c) cs
    | none => matchesFrom recognise 0 (some c) cs

/-- What is recognised in a text. -/
def matchesIn {α : Type} (recognise : Recogniser α) (cs : List Char) : List α :=
  matchesFrom recognise 0 none cs

end BlockLang.Text
