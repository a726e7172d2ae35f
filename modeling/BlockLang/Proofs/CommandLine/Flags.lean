import BlockLang.CommandLine.Options
import Mathlib.Data.List.TakeWhile

/-!
# More flags on a command line

A flag that is put into a command line only sets its option. It is put in before two hyphens alone,
behind which nothing is a flag; and if there are such hyphens, then at the very front, since the
hyphens that stand beside the input belong to it.

## Main definitions

* `Options.with flag options`: the options with one more flag
* `Flagged flag args flagged`: the second command line is the first with one more flag

## Main results

* `Flagged.parseArguments_eq`: a flag only sets its option
* `parseArguments_path`: a path alone asks for a run without any flags
-/

namespace BlockLang.CommandLine

variable {flag : Flag} {flags more : List Flag} {r : Reader} {options : Options} {arg : String}
  {args rest : List String} {readings : List (String × Reading)} {beside : Bool}

/-- The options with one more flag. -/
def Options.with (flag : Flag) (options : Options) : Options :=
  match flag with
  | .help => options
  | .emitTokens => { options with emitTokens := true }
  | .quiet => { options with quiet := true }
  | .verbose => { options with verbose := true }

@[simp] theorem Options.input_with (flag : Flag) (options : Options) :
    (options.with flag).input = options.input := by
  cases flag <;> rfl

/-- The second command line is the first with one more flag. It stands before two hyphens alone; if
there are any, it is the first argument. -/
inductive Flagged (flag : Flag) : List String → List String → Prop
  | first {args : List String} {spelling : String} (spells : (spelling, flag) ∈ flagSpellings) :
      Flagged flag args (spelling :: args)
  | between {before after : List String} {spelling : String}
      (spells : (spelling, flag) ∈ flagSpellings) (plain : "--" ∉ before ++ after) :
      Flagged flag (before ++ after) (before ++ spelling :: after)

/-- The second list holds one more flag. -/
def HasAlso (flag : Flag) (flags more : List Flag) : Prop := ∀ f, f ∈ more ↔ f ∈ flags ∨ f = flag

theorem hasAlso_concat (flags : List Flag) (flag : Flag) : HasAlso flag flags (flags ++ [flag]) :=
  fun f => by simp

theorem HasAlso.append (h : HasAlso flag flags more) (others : List Flag) :
    HasAlso flag (flags ++ others) (more ++ others) := fun f => by
  simp only [List.mem_append, h f]
  exact or_right_comm

theorem HasAlso.contains (h : HasAlso flag flags more) (f : Flag) :
    more.contains f = (flags.contains f || decide (f = flag)) := by
  rw [Bool.eq_iff_iff]
  simp only [List.contains_iff_mem, Bool.or_eq_true, decide_eq_true_eq]
  exact h f

/-- Operands are read alike whatever flags there are. -/
theorem readOperands_flags (r : Reader) (more : List Flag) (args : List String) :
    readOperands { r with flags := more } args =
      { readOperands r args with flags := more } := by
  fun_induction readOperands r args with
  | case1 => rfl
  | case2 r arg rest hi ih => simpa only [readOperands, hi] using ih
  | case3 r arg rest input hi ih => simpa only [readOperands, hi] using ih

theorem readSeparated_flags (r : Reader) (more : List Flag) (beside : Bool) (rest : List String) :
    readSeparated { r with flags := more } beside rest =
      { readSeparated r beside rest with flags := more } := by
  unfold readSeparated
  dsimp only
  split
  · exact readOperands_flags r more rest
  · exact readOperands_flags { r with extras := r.extras ++ ["--"] } more rest

theorem flags_readOperands (r : Reader) (args : List String) :
    (readOperands r args).flags = r.flags := by
  fun_induction readOperands r args with
  | case1 => rfl
  | case2 r arg rest hi ih => exact ih
  | case3 r arg rest input hi ih => exact ih

theorem flags_readSeparated (r : Reader) (beside : Bool) (rest : List String) :
    (readSeparated r beside rest).flags = r.flags := by
  unfold readSeparated
  split <;> exact flags_readOperands _ rest

theorem HasAlso.finish (h : HasAlso flag r.flags more) (ok : r.finish = .ok (.run options)) :
    Reader.finish { r with flags := more } = .ok (.run (options.with flag)) := by
  unfold Reader.finish at ok ⊢
  dsimp only
  split at ok
  · cases ok
  · split at ok
    · next input hi none =>
      cases ok
      rw [hi, if_pos none, h.contains, h.contains, h.contains]
      cases flag <;> simp [Options.with]
    · cases ok

/-- What is read later is read alike, whatever flags were read. -/
theorem HasAlso.readArguments (h : HasAlso flag r.flags more)
    (ok : readArguments r beside readings rest = .ok (.run options)) :
    readArguments { r with flags := more } beside readings rest =
      .ok (.run (options.with flag)) := by
  induction readings generalizing r more beside with
  | nil =>
    cases rest with
    | nil => exact h.finish ok
    | cons arg rest =>
      simp only [CommandLine.readArguments, readSeparated_flags] at ok ⊢
      exact HasAlso.finish (by rwa [flags_readSeparated]) ok
  | cons entry readings ih =>
    obtain ⟨arg, reading⟩ := entry
    cases reading with
    | operand =>
      simp only [CommandLine.readArguments] at ok ⊢
      cases hi : r.input with
      | none =>
        simp only [hi] at ok ⊢
        exact ih (r := { r with input := some arg }) h ok
      | some input =>
        simp only [hi] at ok ⊢
        exact ih (r := { r with input := some input, extras := r.extras ++ [arg] }) h ok
    | unknown => exact ih (r := { r with extras := r.extras ++ [arg] }) h ok
    | flag f isLong attached =>
      simp only [CommandLine.readArguments] at ok ⊢
      split at ok
      · cases ok
      · next fs hf =>
        split at ok
        · cases ok
        · next here =>
          rw [if_neg here]
          exact ih (r := { r with flags := r.flags ++ fs }) (h.append fs) ok

/-- If there are no two hyphens alone, it does not matter whether the argument before was the
input. -/
theorem readArguments_beside (beside' : Bool) :
    readArguments r beside readings [] = readArguments r beside' readings [] := by
  cases readings with
  | nil => rfl
  | cons entry readings =>
    obtain ⟨arg, reading⟩ := entry
    cases reading <;> rfl

/-- One more flag is read first. -/
theorem readArguments_first (proper : flag ≠ .help) {long : Bool}
    (ok : readArguments r false readings rest = .ok (.run options)) :
    readArguments r beside ((arg, .flag flag long none) :: readings) rest =
      .ok (.run (options.with flag)) := by
  have here : Flag.help ∉ [flag] := by simpa using proper.symm
  rw [readArguments, readFlags]
  dsimp only
  rw [if_neg here]
  exact (hasAlso_concat r.flags flag).readArguments ok

/-- One more flag is read on the way. -/
theorem readArguments_between (proper : flag ≠ .help) {long : Bool}
    {front : List (String × Reading)}
    (ok : readArguments r beside (front ++ readings) [] = .ok (.run options)) :
    readArguments r beside (front ++ (arg, .flag flag long none) :: readings) [] =
      .ok (.run (options.with flag)) := by
  induction front generalizing r beside with
  | nil => exact readArguments_first proper ((readArguments_beside _).trans ok)
  | cons entry front ih =>
    obtain ⟨other, reading⟩ := entry
    cases reading with
    | operand =>
      simp only [List.cons_append, readArguments] at ok ⊢
      cases hi : r.input with
      | none =>
        simp only [hi] at ok ⊢
        exact ih ok
      | some input =>
        simp only [hi] at ok ⊢
        exact ih ok
    | unknown => exact ih ok
    | flag f isLong attached =>
      simp only [List.cons_append, readArguments] at ok ⊢
      split at ok
      · cases ok
      · split at ok
        · cases ok
        · next here =>
          rw [if_neg here]
          exact ih ok

/-- A spelling of a flag is read as this flag. -/
theorem readArgument_spelling (spells : (arg, flag) ∈ flagSpellings) :
    readArgument arg = .ok (.flag flag (isLong arg.toList) none) ∧ arg ≠ "--" := by
  simp only [flagSpellings, List.mem_cons, Prod.mk.injEq, List.not_mem_nil, or_false] at spells
  rcases spells with ⟨rfl, rfl⟩ | ⟨rfl, rfl⟩ | ⟨rfl, rfl⟩ | ⟨rfl, rfl⟩ | ⟨rfl, rfl⟩ | ⟨rfl, rfl⟩ |
    ⟨rfl, rfl⟩ <;> exact ⟨rfl, by decide⟩

theorem readAll_cons {reading : Reading} (reads : readArgument arg = .ok reading)
    (ok : readAll args = .ok readings) :
    readAll (arg :: args) = .ok ((arg, reading) :: readings) := by
  rw [readAll, reads, ok]
  rfl

/-- One more argument is read where it stands. -/
theorem readAll_insert {reading : Reading} (reads : readArgument arg = .ok reading)
    {before after : List String} (ok : readAll (before ++ after) = .ok readings) :
    ∃ front back, readings = front ++ back ∧
      readAll (before ++ arg :: after) = .ok (front ++ (arg, reading) :: back) := by
  induction before generalizing readings with
  | nil => exact ⟨[], readings, rfl, readAll_cons reads ok⟩
  | cons first before ih =>
    rw [List.cons_append, readAll] at ok
    split at ok
    · cases ok
    · next r hr =>
      cases ho : readAll (before ++ after) with
      | error e => simp [ho, Except.map] at ok
      | ok others =>
        obtain ⟨front, back, rfl, inserted⟩ := ih ho
        simp only [ho, Except.map, Except.ok.injEq] at ok
        exact ⟨(first, r) :: front, back, ok.symm, readAll_cons hr inserted⟩

/-- A command line without two hyphens alone is read as a whole. -/
theorem parseArguments_eq_ok_iff (plain : "--" ∉ args) {parsed : Parsed} :
    parseArguments args = .ok parsed ↔
      ∃ readings, readAll args = .ok readings ∧
        readArguments ⟨none, [], []⟩ false readings [] = .ok parsed := by
  have whole : args.takeWhile (· != "--") = args :=
    List.takeWhile_eq_self_iff.mpr fun arg ha => by
      simpa using fun same : arg = "--" => plain (same ▸ ha)
  unfold parseArguments
  dsimp only
  rw [whole, List.drop_length]
  cases readAll args <;> simp

/-- A flag only sets its option. -/
theorem Flagged.parseArguments_eq {flagged : List String} (h : Flagged flag args flagged)
    (proper : flag ≠ .help) (ok : parseArguments args = .ok (.run options)) :
    parseArguments flagged = .ok (.run (options.with flag)) := by
  cases h with
  | @first args spelling spells =>
    obtain ⟨reads, other⟩ := readArgument_spelling spells
    have front : (spelling :: args).takeWhile (· != "--") =
        spelling :: args.takeWhile (· != "--") := by simp [other]
    unfold parseArguments at ok ⊢
    dsimp only at ok ⊢
    split at ok
    · cases ok
    · next readings read =>
      rw [front, readAll_cons reads read, List.length_cons, List.drop_succ_cons]
      exact readArguments_first proper ok
  | @between before after spelling spells plain =>
    obtain ⟨reads, other⟩ := readArgument_spelling spells
    have still : "--" ∉ before ++ spelling :: after := by
      simp only [List.mem_append, List.mem_cons, not_or] at plain ⊢
      exact ⟨plain.1, other.symm, plain.2⟩
    obtain ⟨readings, read, finished⟩ := (parseArguments_eq_ok_iff plain).mp ok
    obtain ⟨front, back, rfl, inserted⟩ := readAll_insert reads read
    exact (parseArguments_eq_ok_iff still).mpr
      ⟨_, inserted, readArguments_between proper finished⟩

/-- A path alone asks for a run without any flags. -/
theorem parseArguments_path {path : String} (plain : path.toList.head? ≠ some '-') :
    parseArguments [path] = .ok (.run ⟨path, false, false, false⟩) := by
  have other : "--" ∉ [path] := by
    intro same
    rw [← List.mem_singleton.mp same] at plain
    exact plain rfl
  have reads : readArgument path = .ok .operand := if_pos plain
  exact (parseArguments_eq_ok_iff other).mpr ⟨_, readAll_cons reads rfl, rfl⟩

end BlockLang.CommandLine
