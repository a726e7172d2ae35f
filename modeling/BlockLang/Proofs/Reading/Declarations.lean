import BlockLang.Proofs.Dictionaries
import BlockLang.Scopes

/-!
# Declarations

What a program has declared so far, as lists in the order of declaration: one for the global scope
and one for each open loop. A name stands for its latest declaration, in the outermost open loop
that declares it or else globally. The scopes of the analyser are the tables of these lists.

## Main definitions

* `Declarations`: what was declared globally and in each open loop
* `Declarations.declare`, `Declarations.enter`, `Declarations.leave`: one more declaration, one more
  loop, one loop less
* `Declarations.lookup`: the declaration that a name stands for
* `latest`, `summary`: the latest declaration of a name, and of each name
* `Declarations.scopes`: the scopes that hold the declarations

## Main results

* `Declarations.lookup_scopes`, `Declarations.scopes_declare`: scopes and declarations agree
* `entries_table`: the table of a list holds the summary of the list
-/

namespace BlockLang

/-- What was declared globally, and in each open loop, the innermost loop first. -/
structure Declarations where
  globals : List Variable
  loops : List (List Variable)
  deriving DecidableEq, Repr

/-- The latest declaration of a name. -/
def latest (name : String) (log : List Variable) : Option Variable :=
  log.reverse.find? fun v => v.identifier = name

/-- The latest declaration of each name, in the order in which the names were first declared. -/
def summary (log : List Variable) : List (String × Variable) :=
  (log.map Variable.identifier).eraseDups.filterMap fun name => (latest name log).map (name, ·)

/-- The table of some declarations in turn. -/
def table (log : List Variable) : Table := .ofList (log.map fun v => (v.identifier, v))

namespace Declarations

/-- Nothing is declared and no loop is open. -/
def empty : Declarations := ⟨[], []⟩

/-- One more declaration in the innermost open loop, or else globally. -/
def declare (d : Declarations) (v : Variable) : Declarations :=
  match d.loops with
  | [] => { d with globals := d.globals ++ [v] }
  | log :: outer => { d with loops := (log ++ [v]) :: outer }

/-- One more loop inside the others. -/
def enter (d : Declarations) : Declarations := { d with loops := [] :: d.loops }

/-- The innermost loop is closed. -/
def leave (d : Declarations) : Declarations := { d with loops := d.loops.tail }

/-- The declaration that a name stands for, sought in the open loops from the outermost inward and
then globally. -/
def lookup (d : Declarations) (name : String) : Option Variable :=
  (d.loops.reverse ++ [d.globals]).findSome? (latest name)

/-- The scopes that hold the declarations. -/
def scopes (d : Declarations) : Scopes := ⟨table d.globals, d.loops.map table⟩

end Declarations

/-! ## Tables -/

theorem table_concat (log : List Variable) (v : Variable) :
    table (log ++ [v]) = (table log).insert v.identifier v := by
  simp [table, Dictionary.ofList]

/-- A table gives the latest declaration of a name. -/
theorem find?_table (log : List Variable) (name : String) :
    (table log).find? name = latest name log := by
  rw [table, Dictionary.find?_ofList, ← List.map_reverse, List.find?_map, Option.map_map]
  exact Option.map_id'

/-- A table has the names in the order of their first declarations. -/
theorem keys_table (log : List Variable) :
    (table log).keys = (log.map Variable.identifier).eraseDups := by
  rw [table, Dictionary.keys_ofList, List.map_map]
  rfl

/-- The table of a list holds the summary of the list. -/
theorem entries_table (log : List Variable) : (table log).entries = summary log := by
  have distinct : (table log).keys.Nodup := Dictionary.nodup_keys_ofList _
  rw [Dictionary.entries_eq distinct, summary, ← keys_table]
  exact List.filterMap_congr fun name _ => by rw [← find?_table]

/-! ## Scopes -/

namespace Declarations

variable (d : Declarations)

theorem scopes_enter : d.enter.scopes = d.scopes.enter := rfl

theorem scopes_declare (v : Variable) : (d.declare v).scopes = d.scopes.declare v.identifier v := by
  obtain ⟨globals, loops⟩ := d
  cases loops with
  | nil => simp [declare, scopes, Scopes.declare, table_concat]
  | cons log outer => simp [declare, scopes, Scopes.declare, table_concat]

theorem lookupLoops_table (name : String) (loops : List (List Variable)) :
    Scopes.lookupLoops name (loops.map table) = loops.reverse.findSome? (latest name) := by
  induction loops with
  | nil => rfl
  | cons log outer ih =>
    rw [List.map_cons, Scopes.lookupLoops, ih, find?_table, List.reverse_cons,
      List.findSome?_append]
    simp

/-- A name stands for the same variable. -/
theorem lookup_scopes (name : String) : d.scopes.lookup name = d.lookup name := by
  rw [Scopes.lookup, scopes, lookupLoops_table, find?_table, lookup, List.findSome?_append]
  simp

end Declarations

end BlockLang
