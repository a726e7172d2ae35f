import BlockLang.Proofs.Dictionaries
import BlockLang.Scopes.Script

/-!
# Histories of scopes

What scopes hold is told by what was asked of them so far. Each declaration was made into one scope,
the innermost one that was open at that moment, and the loop scopes that are open now are those that
were opened and not closed since. A name stands for its latest declaration in the outermost of these
that has one, and else for its latest global declaration.

## Main definitions

* `ScopeCall`, `scopesAfter history`: a call on scopes, and the scopes behind some calls
* `StillOpen`, `openScopes history`: the loop scopes that are open behind some calls, each told by
  the number of the call that opened it
* `declaredInto scope history`: the declarations that were made into a scope
* `latestInto name scope history`, `standsFor name history`: the latest declaration of a name in a
  scope, and the one that the name stands for

## Main results

* `mem_openScopes_iff`: a scope is open if it was opened and not closed since
* `scopesAfter_eq`: the scopes are the tables of the declarations made into them
* `scopesAfter_of_open`: what was there before a scope was opened is still there behind it
* `scopes_refine_history`: look-ups and closings are told by the history
-/

namespace BlockLang

/-- What is asked of scopes. -/
inductive ScopeCall
  | declare (name : String) (v : Variable)
  | enter
  | leave
  deriving DecidableEq, Repr

/-- The call as an action of a script. -/
def ScopeCall.action : ScopeCall → ScopeAction
  | declare name v => .declare name v
  | enter => .enter
  | leave => .leave

/-- The scopes behind some calls. -/
def scopesAfter (history : List ScopeCall) : Scopes :=
  (runActions (history.map ScopeCall.action) .empty).scopes

/-! ## What a history tells -/

/-- The call of the number opened a loop scope, and at no moment since were more scopes closed than
opened. -/
def StillOpen (history : List ScopeCall) (number : Nat) : Prop :=
  history[number]? = some .enter ∧
    ∀ since, since <+: history.drop (number + 1) → since.count .leave ≤ since.count .enter

/-- The numbers of the open scopes behind one more call. -/
def ScopeCall.openBehind (opened : List Nat) (number : Nat) : ScopeCall → List Nat
  | declare _ _ => opened
  | enter => number :: opened
  | leave => opened.tail

/-- The loop scopes that are open behind some calls, the innermost first, each told by the number of
the call that opened it. -/
def openScopes (history : List ScopeCall) : List Nat :=
  history.zipIdx.foldl (fun opened entry => entry.1.openBehind opened entry.2) []

/-- The names and variables that were declared while a scope was the innermost that was open, in
their order. The scope is a loop scope or the global one. -/
def declaredInto (scope : Option Nat) (history : List ScopeCall) : List (String × Variable) :=
  history.zipIdx.filterMap fun
    | (.declare name v, number) =>
      if (openScopes (history.take number)).head? = scope then some (name, v) else none
    | _ => none

/-- The latest declaration of a name in a scope. -/
def latestInto (name : String) (scope : Option Nat) (history : List ScopeCall) : Option Variable :=
  ((declaredInto scope history).reverse.find? fun entry => entry.1 = name).map Prod.snd

/-- The declaration that a name stands for: that of the outermost open loop scope that has one, or
else the global one. -/
def standsFor (name : String) (history : List ScopeCall) : Option Variable :=
  ((openScopes history).reverse.map some ++ [none]).findSome? fun scope =>
    latestInto name scope history

variable {h : List ScopeCall} {c : ScopeCall} {i number : Nat} {scope : Option Nat}
  {name : String} {v : Variable} {s : Scopes}

/-! ## One more call -/

@[simp] theorem openScopes_nil : openScopes [] = [] := rfl

@[simp] theorem openScopes_concat (h : List ScopeCall) (c : ScopeCall) :
    openScopes (h ++ [c]) = c.openBehind (openScopes h) h.length := by
  simp [openScopes, List.zipIdx_append]

/-- Every open scope was opened by a call of the history, and outer scopes were opened earlier. -/
theorem openScopes_ordered (h : List ScopeCall) :
    (openScopes h).Pairwise (· > ·) ∧ ∀ i ∈ openScopes h, i < h.length := by
  induction h using List.reverseRecOn with
  | nil => exact ⟨.nil, List.forall_mem_nil _⟩
  | append_singleton h c ih =>
    obtain ⟨ordered, bounded⟩ := ih
    have earlier : ∀ i ∈ openScopes h, i < (h ++ [c]).length := fun i hi => by
      simpa using Nat.lt_succ_of_lt (bounded i hi)
    rw [openScopes_concat]
    cases c with
    | declare name v => exact ⟨ordered, earlier⟩
    | enter => exact ⟨.cons bounded ordered, List.forall_mem_cons.mpr ⟨by simp, earlier⟩⟩
    | leave => exact ⟨ordered.tail, fun i hi => earlier i (List.mem_of_mem_tail hi)⟩

@[simp] theorem declaredInto_concat (scope : Option Nat) (h : List ScopeCall) (c : ScopeCall) :
    declaredInto scope (h ++ [c]) = declaredInto scope h ++
      match c with
      | .declare name v => if (openScopes h).head? = scope then [(name, v)] else []
      | _ => [] := by
  rw [declaredInto, List.zipIdx_append, List.filterMap_append]
  congr 1
  · -- The calls before have the same calls before them.
    refine List.filterMap_congr fun entry he => ?_
    obtain ⟨call, number⟩ := entry
    have before : number < h.length := by
      simpa using List.snd_lt_of_mem_zipIdx he
    cases call with
    | declare name v => simp [List.take_append_of_le_length (Nat.le_of_lt before)]
    | enter => rfl
    | leave => rfl
  · cases c with
    | declare name v =>
      by_cases innermost : (openScopes h).head? = scope
      · simp [innermost]
      · simp [innermost]
    | enter => rfl
    | leave => rfl

/-- Nothing is declared into a scope before it is opened. -/
theorem declaredInto_eq_nil (hn : h.length ≤ number) : declaredInto (some number) h = [] := by
  induction h using List.reverseRecOn with
  | nil => rfl
  | append_singleton h c ih =>
    have shorter : h.length < number := by simpa [Nat.succ_le_iff] using hn
    rw [declaredInto_concat, ih (Nat.le_of_lt shorter), List.nil_append]
    cases c with
    | declare name v =>
      refine if_neg fun same => ?_
      have bounded := (openScopes_ordered h).2 number (List.mem_of_head? same)
      exact absurd bounded (Nat.lt_asymm shorter)
    | enter => rfl
    | leave => rfl

/-! ## Open scopes -/

/-- Behind an open scope as many scopes were closed as were opened, but for those inside it. -/
theorem count_behind_open {inner outer : List Nat} (ho : openScopes h = inner ++ number :: outer) :
    (h.drop (number + 1)).count .enter = (h.drop (number + 1)).count .leave + inner.length := by
  induction h using List.reverseRecOn generalizing inner outer with
  | nil => simp at ho
  | append_singleton h c ih =>
    have bounded := (openScopes_ordered h).2
    -- The call comes behind every scope that is open before it.
    have behind (hn : number ∈ openScopes h) :
        (h ++ [c]).drop (number + 1) = h.drop (number + 1) ++ [c] :=
      List.drop_append_of_le_length (bounded number hn)
    rw [openScopes_concat] at ho
    cases c with
    | declare name v =>
      have here : number ∈ openScopes h := by
        change openScopes h = _ at ho
        simp [ho]
      simp [behind here, ih ho]
    | enter =>
      cases inner with
      | nil =>
        obtain ⟨rfl, -⟩ := List.cons.inj ho
        simp
      | cons first inner =>
        have ho : openScopes h = inner ++ number :: outer := (List.cons.inj ho).2
        have here : number ∈ openScopes h := by simp [ho]
        simp [behind here, ih ho]
        omega
    | leave =>
      change (openScopes h).tail = _ at ho
      cases opened : openScopes h with
      | nil => simp [opened] at ho
      | cons first rest =>
        rw [opened, List.tail_cons] at ho
        have split : openScopes h = (first :: inner) ++ number :: outer := by rw [opened, ho]; rfl
        have here : number ∈ openScopes h := by simp [split]
        have counts := ih split
        simp only [List.length_cons] at counts
        simp [behind here]
        omega

theorem stillOpen_concat (hn : number < h.length) : StillOpen (h ++ [c]) number ↔
    StillOpen h number ∧ (h.drop (number + 1) ++ [c]).count .leave ≤
      (h.drop (number + 1) ++ [c]).count .enter := by
  have behind : (h ++ [c]).drop (number + 1) = h.drop (number + 1) ++ [c] :=
    List.drop_append_of_le_length hn
  rw [StillOpen, StillOpen, List.getElem?_append_left hn, behind, and_assoc]
  simp only [List.prefix_concat_iff, or_imp, forall_and, forall_eq]
  exact and_congr_right fun _ => and_comm

/-- A scope stays open behind a call if it had scopes open inside it or the call closes none. -/
theorem mem_openScopes_concat_iff (hn : number < h.length) :
    number ∈ openScopes (h ++ [c]) ↔ number ∈ openScopes h ∧
      (h.drop (number + 1) ++ [c]).count .leave ≤ (h.drop (number + 1) ++ [c]).count .enter := by
  have counts (inner outer : List Nat) (split : openScopes h = inner ++ number :: outer) :=
    count_behind_open split
  rw [openScopes_concat, List.count_append, List.count_append]
  cases c with
  | declare name v =>
    refine (and_iff_left_of_imp fun here => ?_).symm
    obtain ⟨inner, outer, split⟩ := List.append_of_mem here
    simp [counts _ _ split]
  | enter =>
    rw [ScopeCall.openBehind, List.mem_cons, or_iff_right (Nat.ne_of_lt hn)]
    refine (and_iff_left_of_imp fun here => ?_).symm
    obtain ⟨inner, outer, split⟩ := List.append_of_mem here
    simp [counts _ _ split]
    omega
  | leave =>
    -- Only the innermost scope has none open inside it, and so it is the one that is closed.
    rw [ScopeCall.openBehind]
    cases opened : openScopes h with
    | nil => simp
    | cons first rest =>
      rw [List.tail_cons]
      constructor
      · intro here
        obtain ⟨inner, outer, rfl⟩ := List.append_of_mem here
        have inside := counts (first :: inner) outer opened
        simp at inside ⊢
        omega
      · rintro ⟨here, fits⟩
        refine (List.mem_cons.mp here).resolve_left fun same => ?_
        subst same
        have innermost := counts [] rest opened
        simp at innermost fits
        omega

/-- A scope is open if it was opened and not closed since. -/
theorem mem_openScopes_iff : number ∈ openScopes h ↔ StillOpen h number := by
  induction h using List.reverseRecOn with
  | nil => simp [StillOpen]
  | append_singleton h c ih =>
    rcases Nat.lt_trichotomy number h.length with earlier | rfl | later
    · rw [mem_openScopes_concat_iff earlier, stillOpen_concat earlier, ih]
    · -- The call that is last opens a scope or has none of its own.
      have fresh : h.length ∉ openScopes h := fun here =>
        Nat.lt_irrefl _ ((openScopes_ordered h).2 _ here)
      rw [openScopes_concat]
      cases c with
      | declare name v => simp [ScopeCall.openBehind, StillOpen, fresh]
      | enter => simp [ScopeCall.openBehind, StillOpen]
      | leave =>
        have outside : h.length ∉ (openScopes h).tail := fun here =>
          fresh (List.mem_of_mem_tail here)
        simp [ScopeCall.openBehind, StillOpen, outside]
    · have outside : (h ++ [c]).length ≤ number := by
        rw [List.length_append]
        exact later
      refine iff_of_false (fun here => ?_) fun still => ?_
      · exact Nat.not_lt.mpr outside ((openScopes_ordered _).2 number here)
      · rw [StillOpen, List.getElem?_eq_none outside] at still
        cases still.1

/-! ## Steps -/

/-- The scopes behind one more call. -/
def ScopeCall.apply (s : Scopes) : ScopeCall → Scopes
  | declare name v => s.declare name v
  | enter => s.enter
  | leave => (closingStep .leave .removed s).scopes

theorem ScopeCall.run_action (c : ScopeCall) (s : Scopes) :
    (c.action.run s).scopes = c.apply s ∧ (c.action.run s).brokenOff = false := by
  cases c <;> simp [action, apply, ScopeAction.run]

/-- Behind some calls, an action is run on the scopes that they leave. -/
theorem runActions_concat (h : List ScopeCall) (a : ScopeAction) (s : Scopes) :
    (runActions (h.map ScopeCall.action) s).brokenOff = false ∧
      runActions (h.map ScopeCall.action ++ [a]) s =
        let before := runActions (h.map ScopeCall.action) s
        let last := a.run before.scopes
        ⟨before.steps ++ last.steps, last.scopes, last.brokenOff⟩ := by
  induction h generalizing s with
  | nil =>
    refine ⟨by simp [runActions], ?_⟩
    simp only [List.map_nil, List.nil_append, runActions]
    split
    · rfl
    · next going => simpa using going
  | cons c h ih =>
    obtain ⟨-, going⟩ := c.run_action s
    obtain ⟨whole, same⟩ := ih (c.action.run s).scopes
    refine ⟨by simp [runActions, going, whole], ?_⟩
    rw [List.map_cons, List.cons_append, runActions, same]
    simp [runActions, going]

@[simp] theorem scopesAfter_nil : scopesAfter [] = .empty := by simp [scopesAfter, runActions]

@[simp] theorem scopesAfter_concat (h : List ScopeCall) (c : ScopeCall) :
    scopesAfter (h ++ [c]) = c.apply (scopesAfter h) := by
  rw [scopesAfter, List.map_append, List.map_singleton, (runActions_concat h c.action _).2]
  exact (c.run_action _).1

/-- An action behind some calls adds its steps to theirs. -/
theorem runScript_concat (h : List ScopeCall) (a : ScopeAction)
    (going : (a.run (scopesAfter h)).brokenOff = false) :
    runScript (h.map ScopeCall.action ++ [a]) =
      runScript (h.map ScopeCall.action) ++ (a.run (scopesAfter h)).steps := by
  obtain ⟨whole, same⟩ := runActions_concat h a .empty
  rw [scopesAfter] at going
  simp [runScript, same, whole, going, scopesAfter]

/-! ## Scopes and histories -/

/-- The scopes are the tables of the declarations that were made into them. -/
theorem scopesAfter_eq (h : List ScopeCall) :
    scopesAfter h = ⟨.ofList (declaredInto none h),
      (openScopes h).map fun number => .ofList (declaredInto (some number) h)⟩ := by
  -- Induction from the right, along the order of the calls.
  induction h using List.reverseRecOn with
  | nil => rw [scopesAfter_nil]; rfl
  | append_singleton h c ih =>
    rw [scopesAfter_concat, ih, openScopes_concat]
    obtain ⟨ordered, bounded⟩ := openScopes_ordered h
    cases c with
    | declare name v =>
      -- The declaration goes into the innermost scope, and no other has the same number.
      cases opened : openScopes h with
      | nil =>
        simp [ScopeCall.apply, ScopeCall.openBehind, Scopes.declare, opened,
          Dictionary.ofList_concat]
      | cons first rest =>
        have others : ∀ number ∈ rest, first ≠ number := fun number hn =>
          Nat.ne_of_gt ((List.pairwise_cons.mp (opened ▸ ordered)).1 number hn)
        have kept : ∀ number ∈ rest, Dictionary.ofList (declaredInto (some number) h) =
            Dictionary.ofList (declaredInto (some number) (h ++ [.declare name v])) := by
          intro number hn
          simp [opened, others number hn]
        simpa [ScopeCall.apply, ScopeCall.openBehind, Scopes.declare, opened,
          Dictionary.ofList_concat] using kept
    | enter =>
      have fresh : declaredInto (some h.length) h = [] := declaredInto_eq_nil (Nat.le_refl _)
      simp [ScopeCall.apply, ScopeCall.openBehind, Scopes.enter, fresh]
      rfl
    | leave =>
      cases opened : openScopes h with
      | nil => simp [ScopeCall.apply, ScopeCall.openBehind, closingStep, Scopes.leave?]
      | cons first rest => simp [ScopeCall.apply, ScopeCall.openBehind, closingStep, Scopes.leave?]

theorem find?_ofList_declaredInto (scope : Option Nat) (name : String) :
    (Dictionary.ofList (declaredInto scope h)).find? name = latestInto name scope h := by
  rw [Dictionary.find?_ofList, latestInto]

/-- A name is looked up in the scopes as the history tells. -/
theorem lookup_scopesAfter (h : List ScopeCall) (name : String) :
    (scopesAfter h).lookup name = standsFor name h := by
  have loops (numbers : List Nat) : Scopes.lookupLoops name
      (numbers.map fun number => .ofList (declaredInto (some number) h)) =
        (numbers.reverse.map some).findSome? fun scope => latestInto name scope h := by
    induction numbers with
    | nil => rfl
    | cons number rest ih =>
      rw [List.map_cons, Scopes.lookupLoops, ih, find?_ofList_declaredInto]
      simp [List.findSome?_append]
  rw [scopesAfter_eq, Scopes.lookup, loops, find?_ofList_declaredInto, standsFor,
    List.findSome?_append]
  simp

/-- What was there before a scope was opened is still there behind it, under the scopes that were
opened since. -/
theorem scopesAfter_of_open {inner outer : List Nat}
    (ho : openScopes h = inner ++ number :: outer) :
    ∃ tables : List Table, tables.length = inner.length + 1 ∧
      scopesAfter h = { scopesAfter (h.take number) with
        loops := tables ++ (scopesAfter (h.take number)).loops } := by
  induction h using List.reverseRecOn generalizing inner with
  | nil => simp at ho
  | append_singleton h c ih =>
    have before (here : number ∈ openScopes h) : (h ++ [c]).take number = h.take number :=
      List.take_append_of_le_length (Nat.le_of_lt ((openScopes_ordered h).2 number here))
    rw [openScopes_concat] at ho
    rw [scopesAfter_concat]
    cases c with
    | declare name v =>
      -- The declaration changes the innermost table, which was opened since.
      have ho : openScopes h = inner ++ number :: outer := ho
      obtain ⟨tables, length_eq, same⟩ := ih ho
      rw [before (by simp [ho]), same]
      cases tables with
      | nil => cases length_eq
      | cons table tables => exact ⟨table.insert name v :: tables, length_eq, rfl⟩
    | enter =>
      cases inner with
      | nil =>
        obtain ⟨rfl, -⟩ := List.cons.inj ho
        exact ⟨[.empty], rfl, by simp [ScopeCall.apply, Scopes.enter]⟩
      | cons first inner =>
        have ho : openScopes h = inner ++ number :: outer := (List.cons.inj ho).2
        obtain ⟨tables, length_eq, same⟩ := ih ho
        rw [before (by simp [ho]), same]
        exact ⟨.empty :: tables, congrArg (· + 1) length_eq, rfl⟩
    | leave =>
      cases opened : openScopes h with
      | nil => simp [opened, ScopeCall.openBehind] at ho
      | cons first rest =>
        -- The scope that is closed was opened inside, so it has a table of its own.
        have split : openScopes h = (first :: inner) ++ number :: outer := by
          rw [opened, List.cons_append, ← ho, opened]
          rfl
        obtain ⟨tables, length_eq, same⟩ := ih split
        rw [before (by simp [split]), same]
        cases tables with
        | nil => cases length_eq
        | cons table tables => exact ⟨tables, Nat.succ.inj length_eq, rfl⟩

/-- A closed scope leaves the scopes as they were before it was opened. -/
theorem scopesAfter_leave {outer : List Nat} (ho : openScopes h = number :: outer) :
    scopesAfter (h ++ [.leave]) = scopesAfter (h.take number) := by
  have innermost : openScopes h = [] ++ number :: outer := ho
  obtain ⟨tables, length_eq, same⟩ := scopesAfter_of_open innermost
  obtain ⟨table, rfl⟩ := List.length_eq_one_iff.mp length_eq
  rw [scopesAfter_concat, same]
  rfl

/-- Where a loop scope holds a name, the scopes inside it do not count. -/
theorem standsFor_of_held {inner outer : List Nat} (ho : openScopes h = inner ++ number :: outer)
    (held : latestInto name (some number) h ≠ none) :
    standsFor name h = ((number :: outer).reverse.map some).findSome? fun scope =>
      latestInto name scope h := by
  have found : (((number :: outer).reverse.map some).findSome? fun scope =>
      latestInto name scope h).isSome := by
    rw [List.findSome?_isSome_iff]
    exact ⟨some number, by simp, Option.isSome_iff_ne_none.mpr held⟩
  rw [standsFor, ho, List.reverse_append, List.map_append, List.append_assoc,
    List.findSome?_append, Option.or_of_isSome found]

/-- A declaration into an inner scope does not count for a name that an outer loop scope holds. -/
theorem standsFor_declare {inner outer : List Nat} (ho : openScopes h = inner ++ number :: outer)
    (inside : inner ≠ []) (held : latestInto name (some number) h ≠ none) (x : String)
    (v : Variable) : standsFor name (h ++ [.declare x v]) = standsFor name h := by
  have opened : openScopes (h ++ [.declare x v]) = inner ++ number :: outer := by
    rw [openScopes_concat]
    exact ho
  -- The declaration goes into the innermost scope, which is none of those that count.
  have same : ∀ j ∈ number :: outer, latestInto name (some j) (h ++ [.declare x v]) =
      latestInto name (some j) h := by
    intro j hj
    obtain ⟨first, inner, rfl⟩ := List.exists_cons_of_ne_nil inside
    have ordered := (openScopes_ordered h).1
    rw [ho, List.cons_append, List.pairwise_cons] at ordered
    have other : first ≠ j := Nat.ne_of_gt (ordered.1 j (List.mem_append_right inner hj))
    simp [latestInto, ho, other]
  rw [standsFor_of_held opened (same number List.mem_cons_self ▸ held), standsFor_of_held ho held,
    ← List.head?_filterMap, ← List.head?_filterMap]
  refine congrArg List.head? (List.filterMap_congr fun scope hs => ?_)
  obtain ⟨j, hj, rfl⟩ := List.mem_map.mp hs
  exact same j (List.mem_reverse.mp hj)

/-- A closing takes what was declared into the innermost scope, and what is left is what was there
before the scope was opened. -/
theorem leave?_scopesAfter {outer : List Nat} (ho : openScopes h = number :: outer) :
    (scopesAfter h).leave? = some ((Dictionary.ofList (declaredInto (some number) h)).values,
      scopesAfter (h.take number)) := by
  rw [← scopesAfter_leave ho, scopesAfter_concat, scopesAfter_eq, ho]
  rfl

/-- After every sequence of declarations, openings and closings, a name stands for its latest
declaration in the outermost open loop scope that has one, or else for its latest global one. A
closing gives and reports one variable for each name that was declared into the scope it closes, in
the order of the first declarations and with the latest values, and it leaves the scopes as they
were before this scope was opened; without an open scope it is refused and changes nothing. So what
an outer loop scope holds is not changed by declarations inside it. -/
theorem scopes_refine_history (h : List ScopeCall) :
    ((openScopes h).Pairwise (· > ·) ∧ ∀ number, number ∈ openScopes h ↔ StillOpen h number) ∧
    (∀ name, runScript (h.map ScopeCall.action ++ [.lookup name]) =
      runScript (h.map ScopeCall.action) ++
        [⟨.lookup, .found (standsFor name h), scopesAfter h, []⟩]) ∧
    (openScopes h = [] → runScript (h.map ScopeCall.action ++ [.leave]) =
      runScript (h.map ScopeCall.action) ++ [⟨.leave, .noOpenLoop, scopesAfter h, []⟩]) ∧
    (∀ number outer, openScopes h = number :: outer → ∃ vs : List Variable,
      vs.map some = ((declaredInto (some number) h).map Prod.fst).eraseDups.map
        (latestInto · (some number) h) ∧
      runScript (h.map ScopeCall.action ++ [.leave]) = runScript (h.map ScopeCall.action) ++
        [⟨.leave, .removed vs, scopesAfter (h.take number), vs.map .remove⟩]) ∧
    ∀ name inner number outer, openScopes h = inner ++ number :: outer → inner ≠ [] →
      latestInto name (some number) h ≠ none → ∀ x v,
        (scopesAfter (h ++ [.declare x v])).lookup name = (scopesAfter h).lookup name := by
  refine ⟨⟨(openScopes_ordered h).1, fun number => mem_openScopes_iff⟩, fun name => ?_,
    fun closed => ?_, fun number outer opened => ?_,
    fun name inner number outer ho inside held x v => ?_⟩
  · rw [runScript_concat h _ (by simp [ScopeAction.run]), ← lookup_scopesAfter]
    simp [ScopeAction.run]
  · have refused : (scopesAfter h).leave? = none := by
      rw [scopesAfter_eq, closed]
      rfl
    rw [runScript_concat h _ (by simp [ScopeAction.run])]
    simp [ScopeAction.run, closingStep, refused]
  · refine ⟨(Dictionary.ofList (declaredInto (some number) h)).values, ?_, ?_⟩
    · rw [Dictionary.values_eq (Dictionary.nodup_keys_ofList _), Dictionary.keys_ofList]
      exact List.map_congr_left fun name _ => find?_ofList_declaredInto (some number) name
    · rw [runScript_concat h _ (by simp [ScopeAction.run])]
      simp [ScopeAction.run, closingStep, leave?_scopesAfter opened]
  · rw [lookup_scopesAfter, lookup_scopesAfter, standsFor_declare ho inside held]

/-- A loop inside another, each of which declares a name that is also global; the inner one declares
a name of its own twice. -/
def nestedHistory : List ScopeCall :=
  [.declare "x" ⟨"x", .number, ⟨1, 1⟩⟩, .enter, .declare "x" ⟨"x", .string, ⟨2, 6⟩⟩, .enter,
    .declare "y" ⟨"y", .number, ⟨3, 8⟩⟩, .declare "x" ⟨"x", .number, ⟨4, 5⟩⟩,
    .declare "y" ⟨"y", .string, ⟨5, 5⟩⟩]

theorem scopes_refine_history_nested :
    openScopes nestedHistory = [3] ++ 1 :: [] ∧ latestInto "x" (some 1) nestedHistory ≠ none ∧
      (scopesAfter (nestedHistory ++ [.declare "x" ⟨"x", .number, ⟨6, 5⟩⟩])).lookup "x" =
        (scopesAfter nestedHistory).lookup "x" ∧
      (∃ vs : List Variable, vs = [⟨"y", .string, ⟨5, 5⟩⟩, ⟨"x", .number, ⟨4, 5⟩⟩] ∧
        runScript (nestedHistory.map ScopeCall.action ++ [.leave]) =
          runScript (nestedHistory.map ScopeCall.action) ++
            [⟨.leave, .removed vs, scopesAfter (nestedHistory.take 3), vs.map .remove⟩]) ∧
      openScopes [] = [] ∧ runScript [.leave] = [⟨.leave, .noOpenLoop, .empty, []⟩] := by
  have opened : openScopes nestedHistory = [3] ++ 1 :: [] := by decide
  have held : latestInto "x" (some 1) nestedHistory ≠ none := by decide +kernel
  obtain ⟨-, -, -, closing, outer⟩ := scopes_refine_history nestedHistory
  obtain ⟨-, -, refused, -⟩ := scopes_refine_history []
  obtain ⟨vs, taken, closed⟩ := closing 3 [1] opened
  refine ⟨opened, held, outer "x" [3] 1 [] opened (by decide) held "x" _, ⟨vs, ?_, closed⟩, rfl, ?_⟩
  · have values : ((declaredInto (some 3) nestedHistory).map Prod.fst).eraseDups.map
        (latestInto · (some 3) nestedHistory) =
          [⟨"y", .string, ⟨5, 5⟩⟩, ⟨"x", .number, ⟨4, 5⟩⟩].map some := by decide +kernel
    exact List.map_injective_iff.mpr (fun _ _ => Option.some.inj) (taken.trans values)
  · simpa [runScript_nil] using refused rfl

end BlockLang
