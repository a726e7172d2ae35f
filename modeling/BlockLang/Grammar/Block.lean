import BlockLang.Text.Blank

/-!
# Blocks

A block of a grammar file is a marker with a body in braces. The body ends at the brace that
balances the opening one. Braces do not count inside line comments, and neither do they inside
quoted runs, which are set in double quotes or in slashes. In a quoted run a backslash takes the
next character with it.

## Main definitions

* `quotedLength mark cs`: how far a quoted run goes that was opened before `cs`
* `splitBody mode depth cs`: the body at the front of a text, and what follows it
* `Block`: a text split into what precedes a body, the body, and what follows
* `closing? depth i cs`: the place of the brace that closes a body
* `block? marker cs`: the first block of a marker
* `blockSpan? marker cs`: the places where its body begins and ends

## Main results

* `splitBody_append`: body and rest make up the text
* `block?_append`: a block splits the text it was found in
-/

namespace BlockLang.Grammar

/-- How many characters a quoted run takes after its opening mark, the closing mark included. A run
that is not closed takes one more than there are. -/
def quotedLength (mark : Char) : List Char → Nat
  | [] => 1
  | c :: cs =>
    if c = mark then 1
    else if c = '\\' then
      match cs with
      | [] => 3
      | _ :: rest => 2 + quotedLength mark rest
    else 1 + quotedLength mark cs

/-- Where a walk over a body stands. -/
inductive BodyWalk
  | plain
  | comment
  | quoted (mark : Char)
  | escaped (mark : Char)
  deriving DecidableEq, Repr

/-- The body at the front of a text and what follows it, starting with the closing brace; `depth`
braces are open inside the body. -/
def splitBody : BodyWalk → Nat → List Char → Option (List Char × List Char)
  | _, _, [] => none
  | walk, depth, c :: cs =>
    let more (walk : BodyWalk) (depth : Nat) : Option (List Char × List Char) :=
      (splitBody walk depth cs).map fun split => (c :: split.1, split.2)
    match walk with
    | .comment => more (if c = '\n' then .plain else .comment) depth
    | .escaped mark => more (.quoted mark) depth
    | .quoted mark =>
      more (if c = mark then .plain else if c = '\\' then .escaped mark else .quoted mark) depth
    | .plain =>
      if c = '-' ∧ cs.head? = some '-' then more .comment depth
      else if c = '"' ∨ c = '/' then more (.quoted c) depth
      else if c = '{' then more .plain (depth + 1)
      else if c = '}' then
        match depth with
        | 0 => some ([], c :: cs)
        | depth + 1 => more .plain depth
      else more .plain depth

/-- The place of the brace that closes a body. The walk stands at a place of a text, in front of
`cs`, with `depth` braces open inside the body. It jumps over quoted runs, and over comments up to
the line feed behind them, and it goes on at a place further behind each time. -/
def closing? (depth i : Nat) : List Char → Option Nat
  | [] => none
  | c :: cs =>
    if c = '-' ∧ cs.head? = some '-' then
      let comment := cs.takeWhile (· ≠ '\n')
      closing? depth (i + 1 + comment.length) (cs.drop comment.length)
    else if c = '"' ∨ c = '/' then
      closing? depth (i + 1 + quotedLength c cs) (cs.drop (quotedLength c cs))
    else if c = '{' then closing? (depth + 1) (i + 1) cs
    else if c = '}' then
      match depth with
      | 0 => some i
      | depth + 1 => closing? depth (i + 1) cs
    else closing? depth (i + 1) cs
termination_by cs => cs.length
decreasing_by all_goals simp only [List.length_drop, List.length_cons]; omega

/-- A text split at a body: what precedes the body, with its marker and opening brace, the body,
and what follows from the closing brace on. -/
structure Block where
  before : List Char
  body : List Char
  after : List Char
  deriving DecidableEq, Repr

/-- What stands after the marker, blanks and an opening brace, if a text begins with them. -/
def afterOpening? (marker cs : List Char) : Option (List Char) :=
  if marker.isPrefixOf cs then
    match (cs.drop marker.length).dropWhile Text.isBlank with
    | '{' :: rest => some rest
    | _ => none
  else none

/-- The text split after the first place where the marker opens a body. -/
def findOpening? (marker : List Char) : List Char → Option (List Char × List Char)
  | [] => none
  | c :: cs =>
    match afterOpening? marker (c :: cs) with
    | some rest => some ((c :: cs).take ((c :: cs).length - rest.length), rest)
    | none => (findOpening? marker cs).map fun split => (c :: split.1, split.2)

/-- The first block of a marker, if its body is closed. -/
def block? (marker : String) (cs : List Char) : Option Block :=
  match findOpening? marker.toList cs with
  | none => none
  | some (before, rest) =>
    (splitBody .plain 0 rest).map fun split => ⟨before, split.1, split.2⟩

/-- The places where the body of the first block of a marker begins and ends, if it is closed. -/
def blockSpan? (marker : String) (cs : List Char) : Option (Nat × Nat) :=
  match findOpening? marker.toList cs with
  | none => none
  | some (before, rest) => (closing? 0 before.length rest).map fun stop => (before.length, stop)

/-- Body and rest make up the text. -/
theorem splitBody_append {walk : BodyWalk} {depth : Nat} {cs body rest : List Char}
    (h : splitBody walk depth cs = some (body, rest)) : body ++ rest = cs := by
  induction cs generalizing walk depth body rest with
  | nil => simp [splitBody] at h
  | cons c cs ih =>
    have more : ∀ {walk : BodyWalk} {depth : Nat},
        (splitBody walk depth cs).map (fun split => (c :: split.1, split.2)) = some (body, rest) →
        body ++ rest = c :: cs := by
      intro walk depth hm
      simp only [Option.map_eq_some_iff, Prod.mk.injEq, Prod.exists] at hm
      obtain ⟨body', rest', hs, rfl, rfl⟩ := hm
      simp [ih hs]
    cases walk with
    | plain =>
      simp only [splitBody] at h
      split at h
      · exact more h
      · split at h
        · exact more h
        · split at h
          · exact more h
          · split at h
            · split at h
              · simp only [Option.some.injEq, Prod.mk.injEq] at h
                obtain ⟨rfl, rfl⟩ := h
                rfl
              · exact more h
            · exact more h
    | comment => exact more h
    | quoted mark => exact more h
    | escaped mark => exact more h

theorem afterOpening?_suffix {marker cs rest : List Char}
    (h : afterOpening? marker cs = some rest) : rest <:+ cs := by
  unfold afterOpening? at h
  split at h
  · split at h
    · next rest' heq =>
      simp only [Option.some.injEq] at h
      subst h
      have h₁ : '{' :: rest' <:+ cs.drop marker.length := heq ▸ List.dropWhile_suffix _
      exact ((List.suffix_cons _ _).trans h₁).trans (List.drop_suffix _ _)
    · simp at h
  · simp at h

theorem findOpening?_append {marker cs before rest : List Char}
    (h : findOpening? marker cs = some (before, rest)) : before ++ rest = cs := by
  induction cs generalizing before rest with
  | nil => simp [findOpening?] at h
  | cons c cs ih =>
    unfold findOpening? at h
    split at h
    · next rest' heq =>
      simp only [Option.some.injEq, Prod.mk.injEq] at h
      obtain ⟨rfl, rfl⟩ := h
      obtain ⟨front, hf⟩ := afterOpening?_suffix heq
      rw [← hf]
      simp
    · simp only [Option.map_eq_some_iff, Prod.mk.injEq, Prod.exists] at h
      obtain ⟨before', rest', hf, rfl, rfl⟩ := h
      simp [ih hf]

/-- A block splits the text it was found in. -/
theorem block?_append {marker : String} {cs : List Char} {b : Block}
    (h : block? marker cs = some b) : b.before ++ b.body ++ b.after = cs := by
  unfold block? at h
  split at h
  · simp at h
  · next before rest hf =>
    simp only [Option.map_eq_some_iff, Prod.exists] at h
    obtain ⟨body, after, hs, rfl⟩ := h
    simp only [List.append_assoc]
    rw [splitBody_append hs, findOpening?_append hf]

end BlockLang.Grammar
