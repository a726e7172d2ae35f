import BlockLang.Proofs.Depth.Limit
import BlockLang.Trace.Indented

/-!
# Begins and ends

Every production that a trace begins is ended by the same name, the innermost first, also where a
stop passes through. So the productions that are open anywhere in a trace are a stack, an end takes
off the top of it what its begin has put there, and the indentation of an entry is the height of the
stack.

## Main definitions

* `openStep`, `opened`: the open productions after an entry and after a trace, if every end fits
* `Paired events`: the piece of a trace ends what it begins, and nothing else

## Main results

* `Composed.grows`: every composed move tells a paired piece
* `opened_eq`: the open productions are those that were begun and not ended
* `exists_begin_of_opened`: an open production has its begin, and what came since is paired
* `paired_trace`: in a trace, everything that is begun is ended
-/

namespace BlockLang

open Analyser

/-- The open productions after an entry, the innermost first: an end has to fit the innermost. -/
def openStep : List String → Event → Option (List String)
  | stack, .begin p => some (p :: stack)
  | p :: stack, .finish q => if p = q then some stack else none
  | [], .finish _ => none
  | stack, .terminal _ | stack, .add _ | stack, .remove _ | stack, .error _ _ => some stack

/-- The open productions after a trace, the innermost first, if every end fits. -/
def opened (stack : List String) (events : List Event) : Option (List String) :=
  events.foldlM openStep stack

variable {stack left : List String} {es fs : List Event} {e : Event} {p q : String}

theorem opened_nil (stack : List String) : opened stack [] = some stack := rfl

theorem opened_cons (stack : List String) (e : Event) (es : List Event) :
    opened stack (e :: es) = (openStep stack e).bind (opened · es) := rfl

theorem opened_append (stack : List String) (es fs : List Event) :
    opened stack (es ++ fs) = (opened stack es).bind (opened · fs) := by
  rw [opened, List.foldlM_append]
  rfl

theorem openStep_of_flat (h : e.Flat) (stack : List String) : openStep stack e = some stack := by
  obtain ⟨hb, hf⟩ := h
  cases e with
  | begin p => exact absurd rfl hb
  | finish p => exact absurd rfl hf
  | _ => cases stack <;> rfl

theorem openStep_finish_eq_some (h : openStep stack (.finish q) = some left) :
    stack = q :: left := by
  cases stack with
  | nil => cases h
  | cons p stack =>
    rw [openStep, Option.ite_none_right_eq_some] at h
    obtain ⟨rfl, same⟩ := h
    rw [Option.some.inj same]

/-- The open productions are those that were begun and not ended. -/
theorem opened_eq (h : opened stack es = some left) : openAfter stack es = left := by
  induction es generalizing stack with
  | nil => exact Option.some.inj h
  | cons e es ih =>
    rw [opened_cons, Option.bind_eq_some_iff] at h
    obtain ⟨middle, he, h⟩ := h
    cases e with
    | finish q =>
      obtain rfl := openStep_finish_eq_some he
      exact ih h
    | _ => cases stack <;> cases he <;> exact ih h

/-- The indentation of a trace goes up and down with the open productions. -/
theorem finalLevel_of_opened (h : opened stack es = some left) :
    finalLevel stack.length es = left.length := by
  induction es generalizing stack with
  | nil => rw [Option.some.inj h]; rfl
  | cons e es ih =>
    rw [opened_cons, Option.bind_eq_some_iff] at h
    obtain ⟨middle, he, h⟩ := h
    rw [← ih h]
    cases e with
    | finish q =>
      obtain rfl := openStep_finish_eq_some he
      simp [finalLevel, levelAfter]
    | _ => cases stack <;> cases he <;> simp [finalLevel, levelAfter]

/-! ## Paired pieces -/

/-- The piece of a trace ends what it begins, the innermost first, and nothing else. -/
def Paired (events : List Event) : Prop := ∀ stack, opened stack events = some stack

namespace Paired

theorem nil : Paired [] := opened_nil

theorem append (he : Paired es) (hf : Paired fs) : Paired (es ++ fs) := fun stack => by
  rw [opened_append, he stack, Option.bind_some, hf stack]

theorem flat (h : ∀ e ∈ es, e.Flat) : Paired es := by
  induction es with
  | nil => exact .nil
  | cons e es ih =>
    intro stack
    rw [opened_cons, openStep_of_flat (h e List.mem_cons_self)]
    exact ih (fun e he => h e (List.mem_cons_of_mem _ he)) stack

/-- A production around a paired piece. -/
theorem bracket (h : Paired es) (p : String) : Paired (.begin p :: es ++ [.finish p]) := by
  intro stack
  rw [List.cons_append, opened_cons, openStep, Option.bind_some, opened_append, h, Option.bind_some,
    opened_cons, openStep, if_pos rfl]
  rfl

end Paired

/-- An open production has its begin, and what came since is paired. -/
theorem exists_begin_of_opened (h : opened [] es = some (q :: left)) :
    ∃ before inside, es = before ++ .begin q :: inside ∧ opened [] before = some left ∧
      Paired inside := by
  -- Induction on the length, from the right: an end leads back to its own begin first.
  generalize hn : es.length = n
  induction n using Nat.strongRecOn generalizing es q left with
  | ind n ih =>
    subst hn
    rcases List.eq_nil_or_concat es with rfl | ⟨rest, e, rfl⟩
    · cases h
    rw [List.concat_eq_append] at h ih ⊢
    have shorter : rest.length < (rest ++ [e]).length := by simp
    rw [opened_append, Option.bind_eq_some_iff] at h
    obtain ⟨middle, hr, he⟩ := h
    rw [opened_cons, Option.bind_eq_some_iff] at he
    obtain ⟨after, he, same⟩ := he
    obtain rfl : after = q :: left := Option.some.inj same
    by_cases flat : e.Flat
    · rw [openStep_of_flat flat, Option.some.injEq] at he
      obtain ⟨before, inside, rfl, hb, paired⟩ := ih _ shorter (he ▸ hr) rfl
      exact ⟨before, inside ++ [e], by simp, hb, paired.append (.flat (by simpa using flat))⟩
    · cases e with
      | begin p =>
        obtain ⟨rfl, rfl⟩ : p = q ∧ middle = left := by cases middle <;> simpa [openStep] using he
        exact ⟨rest, [], rfl, hr, .nil⟩
      | finish p =>
        obtain rfl := openStep_finish_eq_some he
        obtain ⟨outer, inner, rfl, ho, paired⟩ := ih _ shorter hr rfl
        obtain ⟨before, inside, rfl, hb, paired'⟩ := ih _ (by simp) ho rfl
        exact ⟨before, inside ++ (.begin p :: inner ++ [.finish p]), by simp, hb,
          paired'.append (paired.bracket p)⟩
      | _ => exact absurd ⟨nofun, nofun⟩ flat

/-! ## Moves -/

/-- The trace grew by a paired piece. -/
def Grows (s t : AnalyserState) : Prop := ∃ es, t.trace = s.trace ++ es ∧ Paired es

namespace Grows

variable {r s t : AnalyserState}

theorem of_eq (h : t.trace = s.trace) : Grows s t := ⟨[], by simpa using h, .nil⟩

theorem flat (h : t.trace = s.trace ++ es) (flat : ∀ e ∈ es, e.Flat) : Grows s t :=
  ⟨es, h, .flat flat⟩

theorem trans (h : Grows r s) (h' : Grows s t) : Grows r t := by
  obtain ⟨es, hs, paired⟩ := h
  obtain ⟨fs, ht, paired'⟩ := h'
  exact ⟨es ++ fs, by rw [ht, hs, List.append_assoc], paired.append paired'⟩

end Grows

namespace Analyser

variable {α : Type} {s : AnalyserState}

theorem grows_rejectAt {token : Token} {cause : Cause} {Q : α → AnalyserState → Prop} :
    Ensures (rejectAt (α := α) token cause) Q (fun _ t => Grows s t) s :=
  ensures_rejectAt.mpr (.flat (AnalyserState.trace_emit ..) (by simp [Event.Flat, Event.kind]))

/-- A composed move tells a paired piece, however it ends. -/
theorem Composed.grows {m : Analyser α} (h : Composed m) (s : AnalyserState) :
    Ensures m (fun _ t => Grows s t) (fun _ t => Grows s t) s := by
  induction h generalizing s with
  | pure | tooDeep | lookahead | lookingAt | typeOf | beginChain | beginTerm | recordTerm =>
    exact .of_eq rfl
  | bind _ _ ihm ihf =>
    refine ensures_bind.mpr ((ihm s).answer fun a t ht => ?_)
    exact (ihf a t).imp (fun _ _ hu => ht.trans hu) fun _ _ hu => ht.trans hu
  | accept wanted =>
    have flat : ∀ e ∈ [Event.terminal s.lookahead], e.Flat := by simp [Event.Flat, Event.kind]
    refine ensures_accept (fun next input _ _ => ?_) (fun e input _ _ => ?_) fun _ => grows_rejectAt
    · exact .flat (AnalyserState.trace_advance ..) flat
    · exact .flat (AnalyserState.trace_emit ..) flat
  | refuse _ => exact ensures_reject.mpr grows_rejectAt
  | mismatch token m => exact grows_rejectAt
  | requireDeclared =>
    refine ensures_requireDeclared.mpr ?_
    split
    · split
      · exact .of_eq rfl
      · exact grows_rejectAt
    · exact .of_eq rfl
  | declare v =>
    exact ensures_declare.mpr
      (.flat (AnalyserState.trace_emit ..) (by simp [Event.Flat, Event.kind]))
  | checkSum join =>
    refine ensures_checkSum.mpr ?_
    split
    · exact grows_rejectAt
    · exact .of_eq rfl
  | inFreshChain _ ih => exact ensures_inFreshChain.mpr (ih { s with chain := .fresh })
  | inLoopScope _ ih =>
    refine ensures_inLoopScope.mpr ((ih (enterLoop s)).answer fun _ t ht => ht.trans ?_)
    obtain ⟨removed, told⟩ := t.trace_leaveLoop
    exact .flat told (by simp [Event.Flat, Event.kind])
  | within p _ ih =>
    refine ensures_within.mpr ((ih (s.emit (.begin p.name))).imp (fun _ t ht => ?_)
      fun stop t ht => ?_)
    · obtain ⟨es, told, paired⟩ := ht
      exact ⟨_, by simp [told], paired.bracket p.name⟩
    · obtain ⟨es, told, paired⟩ := ht
      obtain ⟨said, flat, farewell⟩ := stop.exists_farewell_eq p.name t.lookahead
      exact ⟨_, by simp [told, farewell], (paired.append (.flat flat)).bracket p.name⟩

end Analyser

/-- In a trace, everything that is begun is ended. -/
theorem paired_trace (limit : Nat) (stream : TokenStream) :
    Paired (analyseWithin limit stream).events.toList := by
  rcases hp : stream.pull with ⟨e | first, input⟩
  · rw [analyseWithin_of_error hp]
    exact .nil
  · obtain ⟨es, told, paired⟩ := Ensures.endState (P := Grows (.start first input))
      ((composed_program limit).grows (.start first input))
    obtain rfl : (endState (program limit (.start first input))).trace = es := told
    rw [analyseWithin_of_pull hp]
    cases hr : program limit (.start first input) <;> rw [hr] at paired <;> exact paired

end BlockLang
