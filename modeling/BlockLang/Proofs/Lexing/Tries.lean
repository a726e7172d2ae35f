import BlockLang.OperatorTrie
import Mathlib.Data.List.Basic

/-!
# Longest matches

A trie is a table of spellings: what was inserted under a spelling is found under it, and the
longest match is the longest front part of a text that is found.

## Main definitions

* `OperatorTrie.symbol?`: the terminal symbol of a spelling
* `OperatorTrie.IsLongest`: the longest match in a text

## Main results

* `OperatorTrie.symbol?_insert`: a trie gives back what was inserted last
* `OperatorTrie.longest?_eq_none_iff`, `OperatorTrie.longest?_eq_some_iff`: the longest match
* `OperatorTrie.symbol?_standard`: the standard trie knows the operators of the language
-/

namespace BlockLang.OperatorTrie

/-- The terminal symbol of a spelling. -/
def symbol? : OperatorTrie → List Char → Option TokenType
  | node e _, [] => e
  | node _ b, c :: cs => (child? c b).bind (symbol? · cs)

variable {trie : OperatorTrie} {t u : TokenType} {c : Char} {cs run : List Char} {m n : Nat}

@[simp] theorem symbol?_empty (run : List Char) : empty.symbol? run = none := by
  cases run <;> rfl

/-- A trie gives back what was inserted last. -/
theorem symbol?_insert (t : TokenType) (spelling run : List Char) (trie : OperatorTrie) :
    (trie.insert t spelling).symbol? run =
      if run = spelling then some t else trie.symbol? run := by
  induction spelling generalizing run trie with
  | nil =>
    obtain ⟨e, b⟩ := trie
    cases run <;> simp [insert, symbol?]
  | cons c cs ih =>
    obtain ⟨e, b⟩ := trie
    cases run with
    | nil => simp [insert, symbol?]
    | cons d ds =>
      simp only [insert, symbol?, child?_setChild, List.cons.injEq]
      by_cases hd : d = c
      · -- Below the branch of `c` the rest of the spelling was inserted.
        subst hd
        simp only [if_true, Option.bind_some, ih, true_and]
        cases child? d b <;> simp
      · simp [hd]

/-! ## The longest match -/

/-- The first `n` characters of the text spell `t`, and no more of them spell anything. -/
structure IsLongest (trie : OperatorTrie) (cs : List Char) (t : TokenType) (n : Nat) : Prop where
  length_le : n ≤ cs.length
  spells : trie.symbol? (cs.take n) = some t
  longest : ∀ run, run <+: cs → n < run.length → trie.symbol? run = none

theorem forall_prefix_cons {P : List Char → Prop} :
    (∀ run, run <+: c :: cs → P run) ↔ P [] ∧ ∀ run, run <+: cs → P (c :: run) := by
  constructor
  · exact fun h => ⟨h [] List.nil_prefix, fun run hr => h _ ((List.prefix_cons_inj c).mpr hr)⟩
  · rintro ⟨hnil, hcons⟩ run hr
    rcases List.prefix_cons_iff.mp hr with rfl | ⟨run, rfl, hr⟩
    · exact hnil
    · exact hcons run ((List.prefix_cons_inj c).mp hr)

/-- There is no match just when no front part of the text is known. -/
theorem longest?_eq_none_iff :
    trie.longest? cs = none ↔ ∀ run, run <+: cs → trie.symbol? run = none := by
  induction cs generalizing trie with
  | nil =>
    obtain ⟨e, b⟩ := trie
    simp [longest?, symbol?]
  | cons c cs ih =>
    obtain ⟨e, b⟩ := trie
    rw [longest?, forall_prefix_cons]
    cases hc : child? c b with
    | none => simp [symbol?, hc]
    | some below =>
      cases hb : below.longest? cs with
      | none => simp [symbol?, hc, hb, ← ih]
      | some r =>
        -- A match below the branch is a match of the whole.
        simp [symbol?, hc, hb, ← ih]

/-- A match is as long as possible. -/
theorem isLongest_of_longest? (h : trie.longest? cs = some (t, n)) : trie.IsLongest cs t n := by
  induction cs generalizing trie t n with
  | nil =>
    obtain ⟨e, b⟩ := trie
    obtain ⟨rfl, rfl⟩ : e = some t ∧ 0 = n := by simpa [longest?] using h
    exact ⟨Nat.le_refl 0, rfl, fun run hr hn => by simp_all⟩
  | cons c cs ih =>
    obtain ⟨e, b⟩ := trie
    rw [longest?] at h
    cases hb : (child? c b).bind (longest? · cs) with
    | some r =>
      -- The match goes on below the branch.
      obtain ⟨below, hc, hr⟩ := Option.bind_eq_some_iff.mp hb
      obtain ⟨rfl, rfl⟩ : r.1 = t ∧ r.2 + 1 = n := by simpa [hb] using h
      have match_below := ih hr
      refine ⟨Nat.succ_le_succ match_below.length_le, ?_, forall_prefix_cons.mpr ⟨by simp, ?_⟩⟩
      · simpa [symbol?, hc] using match_below.spells
      · intro run hrun hn
        simpa [symbol?, hc] using match_below.longest run hrun (by simpa using hn)
    | none =>
      obtain ⟨rfl, rfl⟩ : e = some t ∧ 0 = n := by simpa [hb] using h
      refine ⟨Nat.zero_le _, rfl, forall_prefix_cons.mpr ⟨by simp, fun run hrun _ => ?_⟩⟩
      rw [symbol?]
      cases hc : child? c b with
      | none => rfl
      | some below => exact longest?_eq_none_iff.mp (by simpa [hc] using hb) run hrun

/-- There is at most one longest match. -/
theorem IsLongest.unique (h : trie.IsLongest cs t n) (h' : trie.IsLongest cs u m) :
    t = u ∧ n = m := by
  have le {t u : TokenType} {n m : Nat} (h : trie.IsLongest cs t n) (h' : trie.IsLongest cs u m) :
      m ≤ n := by
    by_contra hlt
    have := h.longest _ (List.take_prefix m cs) (by simpa [h'.length_le] using hlt)
    cases h'.spells.symm.trans this
  obtain rfl : n = m := Nat.le_antisymm (le h' h) (le h h')
  exact ⟨Option.some.inj (h.spells.symm.trans h'.spells), rfl⟩

/-- The match is the longest one. -/
theorem longest?_eq_some_iff : trie.longest? cs = some (t, n) ↔ trie.IsLongest cs t n := by
  refine ⟨isLongest_of_longest?, fun h => ?_⟩
  cases hl : trie.longest? cs with
  | none =>
    cases h.spells.symm.trans (longest?_eq_none_iff.mp hl _ (List.take_prefix n cs))
  | some r =>
    obtain ⟨rfl, rfl⟩ := h.unique (isLongest_of_longest? hl)
    rfl

/-! ## The standard trie -/

/-- A trie knows the spellings that were inserted, each of them once, and what it knew before. -/
theorem symbol?_foldl_insert (entries : List (String × TokenType))
    (distinct : (entries.map Prod.fst).Nodup) (trie : OperatorTrie) (run : List Char) :
    (entries.foldl (fun trie entry => trie.insert entry.2 entry.1.toList) trie).symbol? run =
      (Dictionary.findEntry (String.ofList run) entries).or (trie.symbol? run) := by
  induction entries generalizing trie with
  | nil => rfl
  | cons entry rest ih =>
    obtain ⟨spelling, t⟩ := entry
    rw [List.map_cons, List.nodup_cons] at distinct
    rw [List.foldl_cons, ih distinct.2, symbol?_insert, Dictionary.findEntry]
    by_cases h : spelling = String.ofList run
    · -- The spelling does not come again, so it stands for what was inserted.
      have absent : Dictionary.findEntry (String.ofList run) rest = none := by
        rw [← h]
        exact (Dictionary.findEntry_eq_none_iff _ _).mpr distinct.1
      simp [h, absent]
    · have : run ≠ spelling.toList := fun e => h (by simp [e])
      simp [h, this]

/-- The standard trie knows the operators of the language. -/
theorem symbol?_standard (run : List Char) :
    standard.symbol? run = operators.find? (String.ofList run) := by
  rw [standard, symbol?_foldl_insert _ (by decide), symbol?_empty, Option.or_none]
  rfl

end BlockLang.OperatorTrie
