import BlockLang.Proofs.Grammar.Words

/-!
# Heights of derivations

How many productions are open at once on the way around a derivation. No derivation is higher than
three productions for each of its tokens.

## Main definitions

* `Tree.height`: the number of productions on the longest way down
* `Production.rank`: how many productions may follow each other before a token is taken

## Main results

* `Tree.Derived.height_le`: heights are bounded by the number of tokens
-/

namespace BlockLang

namespace Tree

mutual

/-- The number of productions on the longest way down. -/
def height : Tree → Nat
  | leaf _ => 0
  | node _ children => heights children + 1

/-- The greatest height of some trees. -/
def heights : List Tree → Nat
  | [] => 0
  | c :: rest => max c.height (heights rest)

end

theorem height_le_heights {c : Tree} {children : List Tree} (h : c ∈ children) :
    c.height ≤ heights children := by
  induction children with
  | nil => cases h
  | cons d rest ih =>
    rw [heights]
    rcases List.mem_cons.mp h with rfl | h
    · exact le_max_left _ _
    · exact (ih h).trans (le_max_right _ _)

theorem heights_le {children : List Tree} {n : Nat} (h : ∀ c ∈ children, c.height ≤ n) :
    heights children ≤ n := by
  induction children with
  | nil => exact Nat.zero_le n
  | cons c rest ih =>
    exact max_le (h c List.mem_cons_self) (ih fun c hc => h c (List.mem_cons_of_mem _ hc))

/-- Every derivation has a token. -/
theorem Derived.length_yield_pos {d : Tree} (h : d.Derived) : 0 < d.yield.length := by
  obtain ⟨t, v, hy, -⟩ := h.exists_cons
  exact hy ▸ Nat.zero_lt_succ _

end Tree

/-- How many productions may follow each other, from this one on, before a token is taken. -/
def Production.rank : Production → Nat
  | .statementList | .expression => 3
  | .statement | .term => 2
  | _ => 1

theorem Production.rank_le (p : Production) : p.rank ≤ 3 := by cases p <;> decide

theorem Production.rank_pos (p : Production) : 0 < p.rank := by cases p <;> decide

/-- A production that may be all of another has a smaller rank. -/
theorem rank_lt_of_mem_words {p q : Production} (h : [.rule q] ∈ p.extended.words) :
    q.rank < p.rank := by
  have all : ∀ ss ∈ p.extended.words, ∀ q ∈ Production.all, ss = [.rule q] → q.rank < p.rank := by
    cases p <;> decide
  exact all _ h q q.mem_all rfl

namespace Tree

theorem length_yield_le {c : Tree} {children : List Tree} (h : c ∈ children) :
    c.yield.length ≤ (yields children).length := by
  induction children with
  | nil => cases h
  | cons d rest ih =>
    rw [yields, List.length_append]
    rcases List.mem_cons.mp h with rfl | h
    · exact Nat.le_add_right _ _
    · exact (ih h).trans (Nat.le_add_left _ _)

/-- Among several trees that all have tokens, each has fewer than all of them. -/
theorem length_yield_lt {c d e : Tree} {rest : List Tree}
    (pos : ∀ x ∈ d :: e :: rest, 0 < x.yield.length) (hc : c ∈ d :: e :: rest) :
    c.yield.length < (yields (d :: e :: rest)).length := by
  have hd : 0 < d.yield.length := pos d List.mem_cons_self
  have he : e.yield.length ≤ (yields (e :: rest)).length := length_yield_le List.mem_cons_self
  have := pos e (List.mem_cons_of_mem _ List.mem_cons_self)
  rw [yields, List.length_append]
  rcases List.mem_cons.mp hc with rfl | hc
  · omega
  · have := length_yield_le hc
    omega

/-- No derivation is higher than three productions for each of its tokens. -/
theorem Derived.height_le {d : Tree} (h : d.Derived) {p : Production} (hp : d.symbol = .rule p) :
    d.height + 3 ≤ 3 * d.yield.length + p.rank := by
  induction h generalizing p with
  | leaf t => cases hp
  | node q children allowed parts ih =>
    obtain rfl : q = p := by simpa [symbol] using hp
    have pos := (Derived.node q children allowed parts).length_yield_pos
    have rank_pos := q.rank_pos
    rw [yield] at pos ⊢
    rw [height]
    rcases children with _ | ⟨c, _ | ⟨e, rest⟩⟩
    · -- No right-hand side is empty.
      obtain ⟨s, rest, hw, -⟩ := begins_of_mem_words allowed
      cases hw
    · -- All the tokens are those of one part, which has a smaller rank.
      cases c with
      | leaf t =>
        simp only [heights, height, Nat.max_self]
        omega
      | node r below =>
        have below_le := ih _ List.mem_cons_self rfl
        have rank_lt : r.rank < q.rank := rank_lt_of_mem_words allowed
        simp only [heights, yields, List.append_nil, Nat.max_zero]
        omega
    · -- Each of several parts has fewer tokens, which pays for its rank.
      have heights_le : heights (c :: e :: rest) ≤ 3 * (yields (c :: e :: rest)).length - 3 := by
        refine heights_le fun x hx => ?_
        have fewer := length_yield_lt (fun x hx => (parts x hx).length_yield_pos) hx
        cases x with
        | leaf t => exact Nat.zero_le _
        | node r below =>
          have below_le := ih _ hx rfl
          have := r.rank_le
          omega
      omega

end Tree

end BlockLang
