import BlockLang.Proofs.Lexing.Tiling
import BlockLang.Proofs.Run.Place

/-!
# Deliveries of a source

A source delivers tokens and then one thing more: the end of the file, or its first error. It stands
behind all the tokens, so what is read of a source before its error does not depend on the error
being there, and an error that is met when all of a source is lexed stands behind everything that
had been read before.

## Main definitions

* `Delivers p tokens last`: a text that begins at a position delivers tokens and one thing more
* `DeliveredAt front cs d`: what is delivered behind a front part of a source

## Main results

* `Cursor.next_cases`: what one call gives
* `exists_delivers_of_source`: what the deliveries of a source are
* `exists_deliveredAt`: where in a source they stand
* `pairwise_deliveries`: they stand one behind the other
* `prefix_of_front`: what was read before an error is a front part of the tokens
-/

namespace BlockLang

open TokenStream (positionOf)

/-! ## One call -/

/-- One call gives the end of the file if only a gap is left, or the token that is written behind
the gap, or the error of what stands there. -/
theorem Cursor.next_cases (cursor : Cursor) :
    (cursor.next .standard).1 = .ok ⟨.endOfFile, "", cursor.position.after cursor.rest⟩ ∨
    (∃ gap t rest offset, cursor.rest = gap ++ (t.written ++ rest) ∧ t.lexeme.Before rest ∧
      t.position = cursor.position.after gap ∧
      cursor.next .standard = (.ok t, ⟨rest, offset, t.position.after t.written⟩)) ∨
    ∃ gap cs, ∃ obstacle : Obstacle, cursor.rest = gap ++ cs ∧ LongestRun isGap gap cs ∧
      obstacle.At cs ∧
      (cursor.next .standard).1 = .error ⟨obstacle.message, cursor.position.after gap⟩ := by
  have text := (takeWhile_append_drop isGap cursor.rest).symm
  have skipped := longestRun_takeWhile isGap cursor.rest
  generalize cursor.rest.takeWhile isGap = gap at text skipped
  generalize cursor.rest.drop gap.length = cs at text skipped
  cases cs with
  | nil =>
    rw [List.append_nil] at text
    exact .inl (text ▸ cursor.next_of_end text skipped)
  | cons c cs =>
    cases hs : scan .standard c cs with
    | found lexeme =>
      obtain ⟨rest, front, before⟩ := before_of_scan_eq_found hs
      rw [front] at text skipped
      have same := before.lexeme_eq (cursor.position.after gap)
      have written := congrArg Lexeme.written same
      refine .inr (.inl ⟨gap, ⟨lexeme.type, String.ofList lexeme.value, cursor.position.after gap⟩,
        rest, cursor.offset + gap.length + lexeme.written.length, ?_, ?_, rfl, ?_⟩)
      · exact text.trans (congrArg (fun run => gap ++ (run ++ rest)) written.symm)
      · rw [same]
        exact before
      · rw [next_of_before text skipped before]
        exact congrArg (fun run => (_, Cursor.mk rest _ (Position.after _ run))) written.symm
    | stuck obstacle passed =>
      have stands := exists_scan_eq_stuck_iff.mp ⟨passed, hs⟩
      exact .inr (.inr ⟨gap, _, obstacle, text, skipped, stands, next_of_at text skipped stands⟩)

/-! ## All deliveries -/

/-- A text that begins at the position delivers the tokens, one behind the other, and then the end
of the file or an error, which stands behind them. -/
structure Delivers (p : Position) (tokens : List Token) (last : Delivery) : Prop where
  type_ne : ∀ t ∈ tokens, t.type ≠ .endOfFile
  nonempty : ∀ t ∈ tokens, t.written ≠ []
  placed : ∀ t ∈ tokens, ∃ run, t.position = p.after run
  behind : ∀ t ∈ tokens, ∃ run, positionOf last = (t.position.after t.written).after run
  last_placed : ∃ run, positionOf last = p.after run
  endOfFile : ∀ t, last = .ok t → t.type = .endOfFile

namespace Delivers

variable {p : Position} {tokens : List Token} {last : Delivery} {t : Token}

theorem nil (placed : ∃ run, positionOf last = p.after run)
    (endOfFile : ∀ t, last = .ok t → t.type = .endOfFile) : Delivers p [] last where
  type_ne := List.forall_mem_nil _
  nonempty := List.forall_mem_nil _
  placed := List.forall_mem_nil _
  behind := List.forall_mem_nil _
  last_placed := placed
  endOfFile := endOfFile

/-- One more token in front. -/
theorem cons {gap rest : List Char} (h : Delivers (t.position.after t.written) tokens last)
    (before : t.lexeme.Before rest) (position_eq : t.position = p.after gap) :
    Delivers p (t :: tokens) last where
  type_ne := List.forall_mem_cons.mpr ⟨before.type_ne_endOfFile, h.type_ne⟩
  nonempty := List.forall_mem_cons.mpr ⟨List.ne_nil_of_length_pos before.length_pos, h.nonempty⟩
  placed := by
    refine List.forall_mem_cons.mpr ⟨⟨gap, position_eq⟩, fun u hu => ?_⟩
    obtain ⟨run, hr⟩ := h.placed u hu
    exact ⟨gap ++ (t.written ++ run), by
      rw [hr, Position.after_append, Position.after_append, position_eq]⟩
  behind := List.forall_mem_cons.mpr ⟨h.last_placed, h.behind⟩
  last_placed := by
    obtain ⟨run, hr⟩ := h.last_placed
    exact ⟨gap ++ (t.written ++ run), by
      rw [hr, Position.after_append, Position.after_append, position_eq]⟩
  endOfFile := h.endOfFile

/-- What comes last stands behind each of the tokens. -/
theorem position_lt (h : Delivers p tokens last) (ht : t ∈ tokens) :
    t.position < positionOf last := by
  obtain ⟨run, hr⟩ := h.behind t ht
  rw [hr, ← Position.after_append]
  exact t.position.lt_after (by simp [h.nonempty t ht])

/-- Behind a token, what comes last does not stand at the start. -/
theorem start_lt (h : Delivers p tokens last) (ht : t ∈ tokens) : p < positionOf last := by
  obtain ⟨gap, hg⟩ := h.placed t ht
  obtain ⟨run, hr⟩ := h.behind t ht
  rw [hr, hg, ← Position.after_append, ← Position.after_append]
  exact p.lt_after (by simp [h.nonempty t ht])

end Delivers

/-- What the lexer gives in enough calls. -/
theorem exists_delivers (n : Nat) (cursor : Cursor) (enough : cursor.rest.length < n) :
    ∃ tokens last, deliveries .standard n cursor = tokens.map .ok ++ [last] ∧
      Delivers cursor.position tokens last := by
  induction n generalizing cursor with
  | zero => cases enough
  | succ n ih =>
    rw [deliveries]
    rcases hn : cursor.next .standard with ⟨delivery, after⟩
    have given := cursor.next_cases
    simp only [hn] at given
    rcases given with rfl | ⟨gap, t, rest, offset, text, before, position_eq, given⟩ |
      ⟨gap, cs, obstacle, -, -, -, rfl⟩
    · refine ⟨[], .ok ⟨.endOfFile, "", cursor.position.after cursor.rest⟩, rfl, .nil ⟨_, rfl⟩ ?_⟩
      intro t ht
      rw [← Except.ok.inj ht]
    · obtain ⟨rfl, rfl⟩ := Prod.mk.inj given
      have shorter : rest.length < n := by
        have := before.length_pos
        simp only [text, List.length_append, Token.lexeme] at enough this
        omega
      obtain ⟨tokens, last, rest_eq, delivers⟩ :=
        ih ⟨rest, offset, t.position.after t.written⟩ shorter
      refine ⟨t :: tokens, last, ?_, delivers.cons before position_eq⟩
      have proper : t.type ≠ .endOfFile := before.type_ne_endOfFile
      simp only [proper, if_false, rest_eq, List.map_cons, List.cons_append]
    · refine ⟨[], .error ⟨obstacle.message, cursor.position.after gap⟩, rfl, .nil ⟨gap, rfl⟩ ?_⟩
      intro t ht
      cases ht

theorem collect_append (tokens : List Token) (last : Delivery) :
    collect (tokens.map .ok ++ [last]) = last.map fun t => tokens ++ [t] := by
  induction tokens with
  | nil => cases last <;> rfl
  | cons t tokens ih =>
    rw [List.map_cons, List.cons_append, collect, ih]
    cases last <;> rfl

/-- A source delivers the tokens that lexing all of it gives, or those before its first error. -/
theorem exists_delivers_of_source (source : String) :
    ∃ tokens last, deliveriesOf source = tokens.map .ok ++ [last] ∧
      tokenize source = last.map (fun t => tokens ++ [t]) ∧ Delivers .start tokens last := by
  obtain ⟨tokens, last, same, delivers⟩ :=
    exists_delivers _ (.start source) (Cursor.length_rest_start_lt source)
  exact ⟨tokens, last, same, by rw [tokenize, deliveriesOf, same, collect_append], delivers⟩

/-- A source that is lexed delivers its tokens only. -/
theorem deliveriesOf_of_tokenize {source : String} {tokens : List Token}
    (h : tokenize source = .ok tokens) : deliveriesOf source = tokens.map .ok := by
  obtain ⟨before, last, same, result, -⟩ := exists_delivers_of_source source
  rw [h] at result
  cases last with
  | error e => cases result
  | ok t =>
    obtain rfl := Except.ok.inj result
    rw [same, List.map_append, List.map_singleton]

/-! ## Places of deliveries -/

/-- What the lexer delivers behind `front`, where the text `cs` comes next, up to the end of the
source: the token that is written first, the end of the file behind everything, or the error of a
text that no lexeme begins. -/
inductive DeliveredAt (front : List Char) : List Char → Delivery → Prop
  | token {t : Token} {rest : List Char} (before : t.lexeme.Before rest)
      (position_eq : t.position = .behind front) : DeliveredAt front (t.written ++ rest) (.ok t)
  | endOfFile : DeliveredAt front [] (.ok ⟨.endOfFile, "", .behind front⟩)
  | error {cs : List Char} {obstacle : Obstacle} (stands : obstacle.At cs)
      (noGap : ∀ c ∈ cs.head?, isGap c = false) :
      DeliveredAt front cs (.error ⟨obstacle.message, .behind front⟩)

namespace DeliveredAt

variable {front cs : List Char} {d : Delivery}

theorem positionOf_eq (h : DeliveredAt front cs d) : positionOf d = .behind front := by
  cases h with
  | token _ position_eq => exact position_eq
  | endOfFile | error => rfl

/-- What is delivered does not begin with a line feed. -/
theorem lineFeed_notMem_head? (h : DeliveredAt front cs d) : '\n' ∉ cs.head? := by
  cases h with
  | token before =>
    obtain ⟨c, run, written⟩ := before.exists_cons
    have line := before.oneLine
    rw [written, List.mem_cons, not_or] at line
    have front : Token.written _ = c :: run := written
    simpa [front] using Ne.symm line.1
  | endOfFile => exact nofun
  | error _ noGap =>
    intro first
    cases noGap _ first

end DeliveredAt

/-- Everything that is delivered of a source is delivered at a place of it. -/
theorem exists_deliveredAt {source : String} {d : Delivery} {n : Nat} (cursor : Cursor)
    (front : List Char) (text : source.toList = front ++ cursor.rest)
    (placed : cursor.position = .behind front) (h : d ∈ deliveries .standard n cursor) :
    ∃ front cs, source.toList = front ++ cs ∧ DeliveredAt front cs d := by
  induction n generalizing cursor front with
  | zero => cases h
  | succ n ih =>
    rw [deliveries] at h
    rcases hn : cursor.next .standard with ⟨delivery, after⟩
    have given := cursor.next_cases
    simp only [hn, placed, ← Position.behind_append] at h given
    rcases given with rfl | ⟨gap, t, rest, offset, written, before, position_eq, given⟩ |
      ⟨gap, cs, obstacle, rest_eq, skipped, stands, rfl⟩
    · obtain rfl : d = _ := by simpa using h
      exact ⟨front ++ cursor.rest, [], by rw [text, List.append_nil], .endOfFile⟩
    · obtain ⟨rfl, rfl⟩ := Prod.mk.inj given
      rw [written, ← List.append_assoc] at text
      have proper : t.type ≠ .endOfFile := before.type_ne_endOfFile
      rcases (by simpa [proper] using h : d = .ok t ∨ _) with rfl | h
      · exact ⟨_, _, text, .token before position_eq⟩
      · refine ih ⟨rest, offset, _⟩ (front ++ gap ++ t.written) ?_ ?_ h
        · rw [text, List.append_assoc (front ++ gap)]
        · rw [position_eq, ← Position.behind_append]
    · obtain rfl : d = _ := by simpa using h
      exact ⟨front ++ gap, cs, by rw [text, rest_eq, List.append_assoc],
        .error stands skipped.stops⟩

theorem exists_deliveredAt_of_mem_deliveriesOf {source : String} {d : Delivery}
    (h : d ∈ deliveriesOf source) :
    ∃ front cs, source.toList = front ++ cs ∧ DeliveredAt front cs d :=
  exists_deliveredAt (.start source) [] rfl Position.behind_nil.symm h

/-! ## The order of deliveries -/

/-- Everything that is delivered stands at or behind the start of the text. -/
theorem Delivers.exists_after {p : Position} {tokens : List Token} {last d : Delivery}
    (h : Delivers p tokens last) (hd : d ∈ tokens.map .ok ++ [last]) :
    ∃ run, positionOf d = p.after run := by
  rcases List.mem_append.mp hd with hd | hd
  · obtain ⟨t, ht, rfl⟩ := List.mem_map.mp hd
    exact h.placed t ht
  · obtain rfl := List.mem_singleton.mp hd
    exact h.last_placed

/-- Deliveries stand one behind the other. -/
theorem pairwise_deliveries (n : Nat) (cursor : Cursor) (enough : cursor.rest.length < n) :
    (deliveries .standard n cursor).Pairwise (positionOf · < positionOf ·) := by
  induction n generalizing cursor with
  | zero => cases enough
  | succ n ih =>
    rw [deliveries]
    rcases hn : cursor.next .standard with ⟨delivery, after⟩
    have given := cursor.next_cases
    simp only [hn] at given
    rcases given with rfl | ⟨gap, t, rest, offset, text, before, -, given⟩ |
      ⟨gap, cs, obstacle, -, -, -, rfl⟩
    · exact List.pairwise_singleton ..
    · obtain ⟨rfl, rfl⟩ := Prod.mk.inj given
      have proper : t.type ≠ .endOfFile := before.type_ne_endOfFile
      have nonempty : t.written ≠ [] := List.ne_nil_of_length_pos before.length_pos
      have shorter : rest.length < n := by
        have := List.length_pos_iff.mpr nonempty
        simp only [text, List.length_append] at enough
        omega
      obtain ⟨tokens, last, same, delivers⟩ :=
        exists_delivers n ⟨rest, offset, t.position.after t.written⟩ shorter
      simp only [proper, if_false]
      refine List.pairwise_cons.mpr ⟨fun d hd => ?_, ih _ shorter⟩
      obtain ⟨run, hr⟩ := delivers.exists_after (same ▸ hd)
      rw [hr, ← Position.after_append]
      exact t.position.lt_after (List.append_ne_nil_of_left_ne_nil nonempty _)
    · exact List.pairwise_singleton ..

/-! ## Fronts of a stream with an error -/

variable {tokens taken : List Token} {e : LexicalError} {p : Position}

/-- What was read before an error is a front part of the tokens. -/
theorem prefix_of_front (h : (TokenStream.mk (tokens.map .ok ++ [.error e]) p).front taken.length =
    taken.map .ok) : taken <+: tokens := by
  induction taken generalizing tokens with
  | nil => exact List.nil_prefix
  | cons t taken ih =>
    cases tokens with
    | nil => cases (List.cons.inj h).1
    | cons u tokens =>
      obtain ⟨same, rest⟩ := List.cons.inj h
      obtain rfl := Except.ok.inj same
      exact (List.prefix_cons_inj u).mpr (ih rest)

/-- An error that was read is the first one. -/
theorem error_eq_of_front {e' : LexicalError}
    (h : (TokenStream.mk (tokens.map .ok ++ [.error e]) p).front (taken.length + 1) =
      taken.map .ok ++ [.error e']) : e' = e := by
  induction taken generalizing tokens with
  | nil =>
    cases tokens with
    | nil => exact (Except.error.inj (List.cons.inj h).1).symm
    | cons u tokens => cases (List.cons.inj h).1
  | cons t taken ih =>
    cases tokens with
    | nil => cases (List.cons.inj h).1
    | cons u tokens => exact ih (List.cons.inj h).2

/-- A stream of tokens has no error. -/
theorem ok_of_mem_front {stream : TokenStream} {d : Delivery} {n : Nat}
    (h : ∀ d ∈ stream.items, ∃ t, d = .ok t) (hd : d ∈ stream.front n) : ∃ t, d = .ok t := by
  induction n generalizing stream with
  | zero => cases hd
  | succ n ih =>
    obtain ⟨items, last⟩ := stream
    rw [TokenStream.front_succ, List.mem_cons] at hd
    cases items with
    | nil =>
      rcases hd with rfl | hd
      · exact ⟨_, rfl⟩
      · exact ih h hd
    | cons item items =>
      rcases hd with rfl | hd
      · exact h _ List.mem_cons_self
      · exact ih (fun d hd => h d (List.mem_cons_of_mem _ hd)) hd

end BlockLang
