import BlockLang.Proofs.Grammar.Tree
import BlockLang.Proofs.Reading.Declarations

/-!
# Walking a derivation

A derivation is walked from left to right. An identifier that stands for a value has to be visible
when it is reached, an expression has to have a type, an assignment declares its target after its
right-hand side, and a loop has declarations of its own.

## Main definitions

* `Declarations.typeOf`: the type of the operand that a token stands for
* `HasType δ w σ`: the operands among the tokens `w` have the type `σ`, and the operators suit it
* `Declarations.valueType?`: the type that some tokens have
* `Tree.walk`: the declarations after a derivation, if nothing is wrong with it

## Main results

* `Tree.walk_of_hasType`: an expression that has a type is walked without a change
* `Tree.Derived.depth_walk`: as many loops are open after a walk as before
-/

namespace BlockLang

/-- The type of the operand that a token stands for. -/
def Declarations.typeOf (δ : Declarations) (t : Token) : Option ValueType :=
  match t.type with
  | .identifier => (δ.lookup t.value).map Variable.type
  | .numberLiteral => some .number
  | .stringLiteral => some .string
  | _ => none

/-- The operands among the tokens are all numbers, or all strings with `+` as the only operator. -/
structure HasType (δ : Declarations) (w : List Token) (σ : ValueType) : Prop where
  known : σ = .number ∨ σ = .string
  operands : ∀ t ∈ w, t.type.isLiteral → δ.typeOf t = some σ
  operators : ∀ t ∈ w, t.type.isArithmetic → σ = .string → t.type = .plus

theorem hasType_iff {δ : Declarations} {w : List Token} {σ : ValueType} :
    HasType δ w σ ↔ (σ = .number ∨ σ = .string) ∧
      (∀ t ∈ w, t.type.isLiteral → δ.typeOf t = some σ) ∧
      ∀ t ∈ w, t.type.isArithmetic → σ = .string → t.type = .plus :=
  ⟨fun h => ⟨h.known, h.operands, h.operators⟩, fun h => ⟨h.1, h.2.1, h.2.2⟩⟩

instance (δ : Declarations) (w : List Token) (σ : ValueType) : Decidable (HasType δ w σ) :=
  decidable_of_iff' _ hasType_iff

/-- The type that some tokens have. -/
def Declarations.valueType? (δ : Declarations) (w : List Token) : Option ValueType :=
  [.number, .string].find? (HasType δ w ·)

/-- The variable that an assignment made of some trees declares. -/
def Declarations.assigned? (δ : Declarations) : List Tree → Option Variable
  | [.leaf target, _, value] =>
    (δ.valueType? value.yield).map fun σ => ⟨target.value, σ, target.position⟩
  | _ => none

namespace Tree

mutual

/-- The declarations after the walk of a tree below a production, if every identifier that stands
for a value is visible when it is reached and every expression has a type. -/
def walk (parent : Production) (δ : Declarations) : Tree → Option Declarations
  | leaf t =>
    if parent.reads ∧ t.type = .identifier ∧ δ.lookup t.value = none then none else some δ
  | node .expression children =>
    if δ.valueType? (yields children) = none then none else walkAll .expression δ children
  | node .assignmentStatement children => do
    let ε ← walkAll .assignmentStatement δ children
    let v ← ε.assigned? children
    some (ε.declare v)
  | node .forStatement children => (walkAll .forStatement δ.enter children).map Declarations.leave
  | node p children => walkAll p δ children

/-- The declarations after the walk of some trees in turn. -/
def walkAll (parent : Production) (δ : Declarations) : List Tree → Option Declarations
  | [] => some δ
  | c :: rest => (walk parent δ c).bind fun ε => walkAll parent ε rest

end

end Tree

/-! ## Types -/

variable {δ : Declarations} {v w : List Token} {σ τ : ValueType}

theorem HasType.mono (h : HasType δ w σ) (sub : ∀ t ∈ v, t ∈ w) : HasType δ v σ :=
  ⟨h.known, fun t ht => h.operands t (sub t ht), fun t ht => h.operators t (sub t ht)⟩

theorem valueType?_eq_none_iff : δ.valueType? w = none ↔ ∀ σ, ¬HasType δ w σ := by
  simp only [Declarations.valueType?, List.find?_eq_none, decide_eq_true_eq]
  constructor
  · intro h σ hσ
    refine h σ ?_ hσ
    rcases hσ.known with rfl | rfl <;> simp
  · exact fun h σ _ => h σ

theorem valueType?_eq_some (h : ∀ σ, HasType δ w σ ↔ σ = τ) : δ.valueType? w = some τ := by
  cases hσ : δ.valueType? w with
  | none => exact absurd ((h τ).mpr rfl) (valueType?_eq_none_iff.mp hσ τ)
  | some σ => exact congrArg some ((h σ).mp (by simpa using List.find?_some hσ))

/-! ## Expressions -/

/-- The production stands for a value. -/
def Production.isValue : Production → Bool
  | .expression | .term | .factor => true
  | _ => false

/-- What stands for a value is made of tokens and of what stands for values. -/
theorem isValue_of_mem_words {p q : Production} {ss : List Symbol} (h : ss ∈ p.extended.words)
    (hp : p.isValue) (hq : .rule q ∈ ss) : q.isValue := by
  have all : ∀ ss ∈ p.extended.words, ∀ q ∈ Production.all, .rule q ∈ ss → q.isValue := by
    revert hp
    cases p <;> decide
  exact all ss h q q.mem_all hq

namespace Tree

theorem walkAll_eq_some {parent : Production} {children : List Tree}
    (h : ∀ c ∈ children, walk parent δ c = some δ) : walkAll parent δ children = some δ := by
  induction children with
  | nil => rfl
  | cons c rest ih =>
    rw [walkAll, h c List.mem_cons_self]
    exact ih fun c hc => h c (List.mem_cons_of_mem _ hc)

/-- An expression that has a type is walked without a change. -/
theorem walk_of_hasType {d : Tree} (hd : d.Derived) (hv : ∀ q, d.symbol = .rule q → q.isValue)
    (h : HasType δ d.yield σ) (parent : Production) : walk parent δ d = some δ := by
  induction hd generalizing parent with
  | leaf t =>
    have visible : ¬(parent.reads ∧ t.type = .identifier ∧ δ.lookup t.value = none) := by
      rintro ⟨-, ht, hl⟩
      have := h.operands t (by simp [yield]) (by rw [ht]; rfl)
      simp [Declarations.typeOf, ht, hl] at this
    rw [walk, if_neg visible]
  | node p children allowed _ ih =>
    have hp : p.isValue := hv p rfl
    -- The parts hold some of the tokens, so they have the same type.
    have all (parent : Production) : walkAll parent δ children = some δ := by
      refine walkAll_eq_some fun c hc => ih c hc (fun q hq => ?_) (h.mono fun t ht => ?_) parent
      · exact isValue_of_mem_words allowed hp (hq ▸ List.mem_map_of_mem hc)
      · rw [yield, yields_eq_flatMap]
        exact List.mem_flatMap_of_mem hc ht
    have typed : δ.valueType? (yields children) ≠ none := fun he =>
      valueType?_eq_none_iff.mp he σ h
    cases p with
    | expression => rw [walk, if_neg typed, all]
    | term => exact all _
    | factor => exact all _
    | _ => cases hp

end Tree

/-! ## Open loops -/

namespace Declarations

/-- The number of open loops. -/
def depth (δ : Declarations) : Nat := δ.loops.length

@[simp] theorem depth_declare (δ : Declarations) (v : Variable) :
    (δ.declare v).depth = δ.depth := by
  obtain ⟨globals, loops⟩ := δ
  cases loops <;> rfl

theorem scopes_of_depth (h : δ.depth = 0) : δ.scopes = ⟨⟨summary δ.globals⟩, []⟩ := by
  obtain ⟨globals, loops⟩ := δ
  obtain rfl : loops = [] := List.length_eq_zero_iff.mp h
  rw [← entries_table]
  rfl

@[simp] theorem depth_enter (δ : Declarations) : δ.enter.depth = δ.depth + 1 := rfl

@[simp] theorem depth_leave (δ : Declarations) : δ.leave.depth = δ.depth - 1 := by
  simp [depth, leave]

end Declarations

namespace Tree

theorem depth_walkAll {parent : Production} {children : List Tree} {ε : Declarations}
    (parts : ∀ c ∈ children, ∀ {δ ε}, walk parent δ c = some ε → ε.depth = δ.depth)
    (h : walkAll parent δ children = some ε) : ε.depth = δ.depth := by
  induction children generalizing δ with
  | nil =>
    cases h
    rfl
  | cons c rest ih =>
    rw [walkAll, Option.bind_eq_some_iff] at h
    obtain ⟨between, hc, hr⟩ := h
    exact (ih (fun c hc => parts c (List.mem_cons_of_mem _ hc)) hr).trans
      (parts c List.mem_cons_self hc)

/-- As many loops are open after a walk as before. -/
theorem Derived.depth_walk {d : Tree} (hd : d.Derived) {parent : Production}
    {ε : Declarations} (h : walk parent δ d = some ε) : ε.depth = δ.depth := by
  induction hd generalizing parent δ ε with
  | leaf t =>
    rw [walk, Option.ite_none_left_eq_some] at h
    exact congrArg Declarations.depth (Option.some.inj h.2).symm
  | node p children _ _ ih =>
    have all {q : Production} {δ ε : Declarations} (h : walkAll q δ children = some ε) :
        ε.depth = δ.depth := depth_walkAll (fun c hc _ _ => ih c hc) h
    -- Only a loop opens a scope, and it closes it again.
    cases p with
    | expression =>
      rw [walk, Option.ite_none_left_eq_some] at h
      exact all h.2
    | assignmentStatement =>
      simp only [walk, Option.bind_eq_bind, Option.bind_eq_some_iff] at h
      obtain ⟨between, hb, v, -, he⟩ := h
      rw [← Option.some.inj he, Declarations.depth_declare, all hb]
    | forStatement =>
      simp only [walk, Option.map_eq_some_iff] at h
      obtain ⟨inside, hi, rfl⟩ := h
      rw [Declarations.depth_leave, all hi, Declarations.depth_enter, Nat.add_sub_cancel]
    | _ => exact all h

end Tree

/-! ## Known types -/

namespace Declarations

/-- Every declared variable has a known type. -/
def Known (δ : Declarations) : Prop :=
  ∀ log ∈ δ.globals :: δ.loops, ∀ v ∈ log, v.type ≠ .unknown

theorem known_empty : empty.Known := by simp [Known, empty]

theorem Known.enter (h : δ.Known) : δ.enter.Known := by simpa [Known, Declarations.enter] using h

theorem Known.leave (h : δ.Known) : δ.leave.Known := by
  -- The innermost log is gone, the others are as before.
  intro log hl
  refine h log ?_
  rcases List.mem_cons.mp hl with rfl | hl
  · exact List.mem_cons_self
  · exact List.mem_cons_of_mem _ (List.mem_of_mem_tail hl)

theorem Known.declare (h : δ.Known) {v : Variable} (hv : v.type ≠ .unknown) :
    (δ.declare v).Known := by
  have concat {log : List Variable} (hl : ∀ u ∈ log, u.type ≠ .unknown) :
      ∀ u ∈ log ++ [v], u.type ≠ .unknown := by
    simpa [or_imp, forall_and] using ⟨hl, hv⟩
  obtain ⟨globals, loops⟩ := δ
  cases loops with
  | nil =>
    simp only [Known, Declarations.declare, List.mem_singleton, forall_eq] at h ⊢
    exact concat h
  | cons log outer =>
    simp only [Known, Declarations.declare, List.mem_cons, forall_eq_or_imp] at h ⊢
    exact ⟨h.1, concat h.2.1, h.2.2⟩

/-- A visible variable has a known type. -/
theorem Known.lookup (h : δ.Known) {name : String} {v : Variable}
    (hv : δ.lookup name = some v) : v.type ≠ .unknown := by
  obtain ⟨log, hl, hv⟩ := List.exists_of_findSome?_eq_some hv
  refine h log ?_ v ?_
  · simpa [or_comm] using hl
  · simpa using List.mem_of_find?_eq_some hv

end Declarations

end BlockLang
