import BlockLang.Text.Parts

/-!
# Host addresses

The host of a URI may be a numeric address: four decimal octets, or eight groups of hexadecimal
digits of which one run of zero groups may be left out. The last two groups may be written as four
octets, and a scope may follow a percent sign.

## Main definitions

* `isOctets cs`: the text is an address of four octets
* `isGroups cs`: the text is an address of eight groups
* `isFutureAddress cs`: the text is an address of a version yet to come
-/

namespace BlockLang.Editor

/-- The number that decimal digits stand for. -/
def decimalValue (cs : List Char) : Nat := cs.foldl (fun n c => n * 10 + (c.toNat - 48)) 0

/-- The text is a decimal number below 256 without leading zeros. -/
def isOctet (cs : List Char) : Bool :=
  cs ≠ [] && cs.all Char.isDigit && cs.length ≤ 3 && (cs = ['0'] || cs.head? ≠ some '0') &&
    decimalValue cs < 256

/-- The text is an address of four octets. -/
def isOctets (cs : List Char) : Bool :=
  let parts := Text.parts '.' cs
  parts.length = 4 && parts.all isOctet

/-- The character is a hexadecimal digit. -/
def isHexDigit (c : Char) : Bool :=
  c.isDigit || ('a' ≤ c && c ≤ 'f') || ('A' ≤ c && c ≤ 'F')

/-- The text is a group of one to four hexadecimal digits. -/
def isGroup (cs : List Char) : Bool := cs ≠ [] && cs.length ≤ 4 && cs.all isHexDigit

/-- The parts around a run of zero groups that was left out: there the colons stand side by side,
and at an end of the address a third part is empty. -/
def splitAtGap? (parts : List (List Char)) : Option (List (List Char) × List (List Char)) :=
  match (parts.zipIdx.drop 1).dropLast.filter fun part => part.1 = [] with
  | [(_, i)] => some (parts.take i, parts.drop (i + 1))
  | _ => none

/-- The groups before the gap: nothing, if the address begins with it. -/
def outerGroups (parts : List (List Char)) : List (List Char) := if parts = [[]] then [] else parts

/-- The parts of an address make up eight groups. -/
def areGroups (parts : List (List Char)) : Bool :=
  if (parts.drop 1).dropLast.contains [] then
    match splitAtGap? parts with
    | some (before, after) =>
      let groups := outerGroups before ++ outerGroups after
      groups.length < 8 && groups.all isGroup
    | none => false
  else parts.length = 8 && parts.all isGroup

/-- The parts of an address with octets at its end replaced by two groups, if they are octets. -/
def withoutOctets? (parts : List (List Char)) : Option (List (List Char)) :=
  let last := parts.getLast?.getD []
  if last.contains '.' then
    if isOctets last then some (parts.dropLast ++ [['0'], ['0']]) else none
  else some parts

/-- The text is an address of eight groups, with or without a scope. -/
def isGroups (cs : List Char) : Bool :=
  let address := cs.takeWhile (· != '%')
  let scope := cs.drop (address.length + 1)
  let parts := Text.parts ':' address
  (address = cs || (scope ≠ [] && !scope.contains '%')) && !cs.contains '/' && parts.length ≥ 3 &&
    match withoutOctets? parts with
    | some parts => parts.length ≤ 9 && areGroups parts
    | none => false

/-- The text is an address of a version yet to come: the version in hexadecimal digits, a point, and
at least one character more. -/
def isFutureAddress (cs : List Char) : Bool :=
  match cs with
  | 'v' :: rest =>
    let version := rest.takeWhile isHexDigit
    version ≠ [] &&
      match rest.drop version.length with
      | '.' :: _ :: _ => true
      | _ => false
  | _ => false

end BlockLang.Editor
