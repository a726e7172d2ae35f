import BlockLang.Proofs.Depth.Bound

/-!
# Causality

An analysis that has stopped asks for nothing more, so nothing behind the last delivery that it
asked for has a part in it. The deliveries are counted on a stream with the end of the file written
out: behind it a stream hands out ends of the file without growing shorter, but an analysis never
takes one, so it never asks for a second.

## Main definitions

* `TokenStream.ended stream`: the stream with its end of the file written out
* `calls limit stream`: how many deliveries the analysis asks for

## Main results

* `TokenStream.front_ended`: an end of the file that is written out changes no delivery
* `calls_eq`: an analysis asks for one delivery more than it takes tokens
* `analysis_is_causal`: streams that agree on what an analysis asks for are analysed alike
-/

namespace BlockLang

namespace TokenStream

/-- The stream with its end of the file written out. -/
def ended (stream : TokenStream) : TokenStream :=
  ⟨stream.items ++ [.ok stream.endToken], stream.endPosition⟩

/-- An end of the file that is written out changes no delivery. -/
theorem front_ended (n : Nat) (stream : TokenStream) : stream.ended.front n = stream.front n := by
  induction n generalizing stream with
  | zero => rfl
  | succ n ih =>
    obtain ⟨items, position⟩ := stream
    cases items with
    | nil => rfl
    | cons item items => exact congrArg (item :: ·) (ih ⟨items, position⟩)

end TokenStream

variable {n limit : Nat} {stream other : TokenStream}

/-- How many deliveries the analysis asks for: by so many the stream has grown shorter in the end,
if its end of the file is written out. -/
def calls (limit : Nat) (stream : TokenStream) : Nat :=
  stream.ended.items.length - (leftover limit stream.ended).items.length

/-- The first delivery, and one for each token that is taken. -/
theorem asks_accepted (limit : Nat) (stream : TokenStream) :
    Asks limit stream ((accepted (analyseWithin limit stream).events.toList).length + 1) := by
  rcases hp : stream.pull with ⟨e | first, input⟩
  · rw [analyseWithin_of_error hp]
    exact asks_of_error hp
  · have asks := asks_of_pull limit hp
    rw [analyseWithin_of_pull hp]
    cases hr : program limit (.start first input) <;> rw [hr] at asks <;> exact asks

/-- An analysis asks for one delivery more than it takes tokens. -/
theorem calls_eq (limit : Nat) (stream : TokenStream) :
    calls limit stream = (accepted (analyseWithin limit stream).events.toList).length + 1 := by
  obtain ⟨last, delivers⟩ := exists_front_eq limit stream
  have few := TokenStream.length_le_of_front (begun_le_and_proper limit stream).2 delivers
  -- What is left is what stands behind the deliveries that were asked for.
  have left := (asks_accepted limit stream stream.ended (stream.front_ended _)).2
  rw [calls, left, TokenStream.items_after, List.length_drop]
  simp only [TokenStream.ended, List.length_append, List.length_singleton]
  omega

/-- An analysis asks for as many deliveries as it is said to. -/
theorem asks_calls (limit : Nat) (stream : TokenStream) :
    Asks limit stream (calls limit stream) :=
  calls_eq limit stream ▸ asks_accepted limit stream

/-- Streams that agree on more deliveries than an analysis asks for are analysed alike. -/
theorem analyseWithin_eq_of_front (agree : other.front n = stream.front n)
    (few : calls limit stream ≤ n) : analyseWithin limit other = analyseWithin limit stream := by
  obtain ⟨k, rfl⟩ := Nat.exists_eq_add_of_le few
  exact (asks_calls limit stream other (TokenStream.front_eq_of_add agree).1).1

/-- Streams that agree on what an analysis asks for are analysed alike, under every limit and
without one, and the analyses ask for the same deliveries. -/
theorem analysis_is_causal (agree : other.front n = stream.front n) :
    (∀ limit, calls limit stream ≤ n →
      analyseWithin limit other = analyseWithin limit stream ∧
        calls limit other = calls limit stream) ∧
    (calls (3 * stream.items.length + 1) stream ≤ n → analyse other = analyse stream) := by
  constructor
  · intro limit few
    have same := analyseWithin_eq_of_front agree few
    exact ⟨same, by rw [calls_eq, calls_eq, same]⟩
  · intro few
    -- The limit that the first stream sets does not stop the analysis of the second either.
    have same := analyseWithin_eq_of_front agree few
    have free : (analyseWithin (3 * stream.items.length + 1) other).outcome ≠ .error .tooDeep := by
      rw [same, ← analyse, analyse_eq_analyseFreely]
      exact outcome_analyseFreely_ne stream
    calc analyse other = analyseFreely other := analyse_eq_analyseFreely other
      _ = analyseWithin (3 * stream.items.length + 1) other :=
        ((tooDeep_or_eq_analyseFreely _ other).resolve_left free).symm
      _ = analyse stream := same

/-- An assignment without its sign, with a lexical error or with nothing behind it. -/
theorem analysis_is_causal_unassigned :
    let read : List Delivery := [.ok ⟨.beginKeyword, "begin", ⟨1, 1⟩⟩,
      .ok ⟨.identifier, "x", ⟨1, 7⟩⟩, .ok ⟨.numberLiteral, "1", ⟨1, 9⟩⟩]
    let stream := TokenStream.ofList read
    let other := TokenStream.ofList (read ++ [.error ⟨"unterminated string", ⟨1, 11⟩⟩])
    other.front 3 = stream.front 3 ∧ calls 10 stream = 3 ∧
      analyse other = analyse stream ∧ analyseWithin 4 other = analyseWithin 4 stream := by
  intro read stream other
  have agree : other.front 3 = stream.front 3 := rfl
  have asked : calls 10 stream = 3 := by decide +kernel
  have few : calls 4 stream ≤ 3 := by decide +kernel
  obtain ⟨limited, unlimited⟩ := analysis_is_causal agree
  exact ⟨agree, asked, unlimited asked.le, (limited 4 few).1⟩

end BlockLang
