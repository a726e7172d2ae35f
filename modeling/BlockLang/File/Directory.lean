import BlockLang.Text.Parts

/-!
# Directories

What a path leads to in a directory tree that is given as data. A path is followed step by step: a
point stays, two points go up, and a name goes down. Only directories can be gone through. Names
and paths have a greatest length. Nothing is known about what lies outside the tree.

## Main definitions

* `FileContent`: what a path leads to
* `Directory`: the files and directories below the current one
* `Directory.lookup tree path`: what a path leads to

## Main results

* `Directory.lookup_empty`: an empty path leads nowhere
-/

namespace BlockLang.File

/-- What a path leads to. A path that goes through a file leads to no directory, and one that is too
long, or whose next name is, is followed no further. -/
inductive FileContent
  | missing
  | directory
  | notDirectory
  | tooLong
  | bytes (content : List UInt8)
  deriving DecidableEq, Repr

/-- The parts of a path between slashes. -/
def pathSteps (path : String) : List String := (Text.parts '/' path.toList).map String.ofList

/-- The name is longer than a name can be, in bytes. -/
def isLongName (name : String) : Bool := 255 < name.utf8ByteSize

/-- The path is longer than a path can be, in bytes. -/
def isLongPath (path : String) : Bool := 4095 < path.utf8ByteSize

/-- The last part of a path. -/
def baseName (path : String) : String :=
  ((pathSteps path).getLast?).getD ""

/-- The entries of a directory tree: the names that lead to each, and its bytes if it is a file. -/
structure Directory where
  entries : List (List String × Option (List UInt8))
  deriving DecidableEq, Repr

namespace Directory

/-- The names that lead to an entry. -/
def names (path : String) : List String :=
  (pathSteps path).filter (· ≠ "")

/-- The step does not leave the directory it is taken in, or leads up from it. -/
def isTrivial (step : String) : Bool := step = "" || step = "." || step = ".."

/-- What steps lead to from a directory above the tree: no name is known there. -/
def outside (steps : List String) : FileContent :=
  match steps.find? fun step => !isTrivial step with
  | none => .directory
  | some name => if isLongName name then .tooLong else .missing

/-- What some names lead to. Whatever is above an entry is a directory. -/
def entryAt (tree : Directory) (place : List String) : FileContent :=
  match tree.entries.find? fun entry => entry.1 = place with
  | some (_, some content) => .bytes content
  | some (_, none) => .directory
  | none =>
    if place = [] || tree.entries.any fun entry => place.isPrefixOf entry.1 then .directory
    else .missing

/-- What the steps of a path lead to from an entry. -/
def follow (tree : Directory) (place : List String) : List String → FileContent
  | [] => tree.entryAt place
  | step :: rest =>
    match tree.entryAt place with
    | .directory =>
      if step = "" ∨ step = "." then follow tree place rest
      else if step = ".." then
        if place = [] then outside rest else follow tree place.dropLast rest
      else if isLongName step then .tooLong
      else follow tree (place ++ [step]) rest
    | .bytes _ => .notDirectory
    | other => other

/-- What a path leads to. -/
def lookup (tree : Directory) (path : String) : FileContent :=
  if path = "" then .missing
  else if isLongPath path then .tooLong
  else if path.toList.head? = some '/' then outside (pathSteps path)
  else tree.follow [] (pathSteps path)

/-- An empty path leads nowhere. -/
theorem lookup_empty (tree : Directory) : tree.lookup "" = .missing := by
  simp [lookup]

end Directory

end BlockLang.File
