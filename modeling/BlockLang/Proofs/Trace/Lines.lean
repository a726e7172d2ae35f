import BlockLang.Proofs.Lexing.Tiling
import BlockLang.Proofs.Trace.Speech
import BlockLang.Report
import BlockLang.Trace.Indented

/-!
# Lines of a written trace

No token of a source spans two lines, and what a trace quotes are tokens. So each entry of the trace
of a source fits on one line, and a text that is written line by line has just these lines.

## Main definitions

* `OneLine s`: the text holds no line feed

## Main results

* `hands_ofSource`: all tokens of a source stand on one line each
* `Event.From.oneLine`: so does every entry that quotes such tokens
* `linesOf_join`: the lines of a text that is written line by line
-/

namespace BlockLang

/-- The text holds no line feed. -/
def OneLine (s : String) : Prop := '\n' ∉ s.toList

instance (s : String) : Decidable (OneLine s) := inferInstanceAs (Decidable (_ ∉ _))

@[simp] theorem oneLine_append {s t : String} : OneLine (s ++ t) ↔ OneLine s ∧ OneLine t := by
  simp [OneLine]

/-! ## Tokens of a source -/

/-- The text of a lexeme is part of what is written. -/
theorem Lexeme.Before.oneLine_value {lexeme : Lexeme} {rest : List Char}
    (h : lexeme.Before rest) : '\n' ∉ lexeme.value := by
  have line := h.oneLine
  cases h with
  | string _ => exact fun hv => line (by simp [hv])
  | _ => exact line

theorem oneLine_of_next {cursor after : Cursor} {t : Token}
    (h : cursor.next .standard = (.ok t, after)) : OneLine t.value := by
  unfold Cursor.next Cursor.deliver at h
  split at h
  · cases h
    simp [OneLine]
  · next c cs _ =>
    split at h
    · next lexeme found =>
      obtain ⟨rest, -, before⟩ := before_of_scan_eq_found found
      cases h
      simpa [OneLine] using before.oneLine_value
    · cases h

/-- Every token that the lexer delivers stands on one line. -/
theorem oneLine_of_mem_deliveries {n : Nat} {cursor : Cursor} {t : Token}
    (h : .ok t ∈ deliveries .standard n cursor) : OneLine t.value := by
  induction n generalizing cursor with
  | zero => cases h
  | succ n ih =>
    rw [deliveries] at h
    split at h
    · simp at h
    · next token after hn =>
      have first := oneLine_of_next hn
      split at h
      · obtain rfl : t = token := by simpa using h
        exact first
      · rcases List.mem_cons.mp h with same | h
        · exact Except.ok.inj same ▸ first
        · exact ih h

theorem hands_ofSource (source : String) :
    (TokenStream.ofSource source).Hands fun t => OneLine t.value where
  items _ h := oneLine_of_mem_deliveries h
  endToken := (by decide : OneLine "")

/-! ## Entries -/

theorem oneLine_nat (n : Nat) : OneLine (toString n) := by
  intro h
  have digits : '\n' ∈ Nat.toDigits 10 n := by simpa using h
  cases Nat.isDigit_of_mem_toDigits (by decide) (by decide) digits

theorem oneLine_int (i : Int) : OneLine (toString i) := by
  cases i with
  | ofNat n => exact oneLine_nat n
  | negSucc n => exact oneLine_append.mpr ⟨by decide, oneLine_nat (n + 1)⟩

theorem oneLine_displayName (t : TokenType) : OneLine t.displayName := by cases t <;> decide

theorem oneLine_productionName (p : Production) : OneLine p.name := by cases p <;> decide

theorem oneLine_typeName (t : ValueType) : OneLine t.name := by cases t <;> decide

theorem oneLine_describe {t : Token} (h : OneLine t.value) : OneLine t.describe := by
  unfold Token.describe Token.kindName
  split
  · simp only [oneLine_append]
    exact ⟨⟨⟨oneLine_displayName _, by decide⟩, h⟩, by decide⟩
  · exact oneLine_displayName _

theorem Mismatch.Sided.oneLine {m : Mismatch} (h : m.Sided) : OneLine m.message := by
  cases m with
  | stringDifference op =>
    unfold message
    simp only [oneLine_append]
    exact ⟨⟨⟨⟨by decide +kernel, oneLine_displayName _⟩, by decide +kernel⟩, oneLine_typeName _⟩,
      by decide⟩
  | mixedSum op left right =>
    unfold message
    simp only [oneLine_append]
    exact ⟨⟨⟨⟨⟨by decide +kernel, oneLine_displayName _⟩, by decide +kernel⟩, oneLine_typeName _⟩,
      by decide⟩, oneLine_typeName _⟩
  | stringFactor op side =>
    have plain : OneLine side := by rcases h with rfl | rfl <;> decide
    unfold message
    simp only [oneLine_append]
    exact ⟨⟨⟨⟨⟨by decide +kernel, plain⟩, by decide +kernel⟩, oneLine_displayName _⟩, by decide⟩,
      oneLine_typeName _⟩

theorem Cause.From.oneLine {cause : Cause} (h : cause.From fun t => OneLine t.value) :
    OneLine cause.message := by
  cases cause with
  | expected wanted got =>
    unfold message
    simp only [oneLine_append]
    exact ⟨⟨⟨by decide +kernel, oneLine_displayName _⟩, by decide⟩, oneLine_describe h⟩
  | expectedRelational got | invalid got =>
    unfold message
    exact oneLine_append.mpr ⟨by decide +kernel, oneLine_describe h⟩
  | trailing got =>
    unfold message
    simp only [oneLine_append]
    exact ⟨⟨by decide +kernel, oneLine_describe h⟩, by decide +kernel⟩
  | undeclared name =>
    obtain ⟨t, ht, -, rfl⟩ := h
    unfold message
    simp only [oneLine_append]
    exact ⟨⟨by decide +kernel, ht⟩, by decide⟩
  | mismatch m => exact Mismatch.Sided.oneLine h

/-- An entry that quotes tokens of one line has one line. -/
theorem Event.From.oneLine {e : Event} (h : e.From fun t => OneLine t.value) :
    OneLine e.body.1 ∧ OneLine e.body.2 := by
  have tag : OneLine e.body.1 := by cases e <;> simp [body, OneLine]
  refine ⟨tag, ?_⟩
  cases e with
  | begin name | finish name =>
    obtain ⟨p, rfl⟩ := h
    exact oneLine_productionName p
  | terminal t =>
    have line : OneLine (toString t.position.line) := oneLine_int _
    simp only [body, tokenText, oneLine_append]
    exact ⟨⟨oneLine_describe h, by decide⟩, line⟩
  | add v | remove v =>
    obtain ⟨t, ht, -, named, -⟩ := h
    simp only [body, Variable.text, oneLine_append]
    exact ⟨⟨named ▸ ht, by decide⟩, oneLine_typeName _⟩
  | error token fault =>
    obtain ⟨-, message⟩ := h
    have said : OneLine fault.head.message := by
      rcases message with ⟨cause, hc, message⟩ | ⟨p, message⟩
      · rw [message]
        exact hc.oneLine
      · rw [message, oneLine_append]
        exact ⟨by decide +kernel, oneLine_productionName p⟩
    have line : OneLine (toString token.position.line) := oneLine_int _
    simp only [body, oneLine_append]
    exact ⟨⟨said, by decide⟩, line⟩

/-! ## Lines -/

/-- A text without a line feed is one line. -/
theorem linesOf_of_oneLine {s : String} (h : OneLine s) : linesOf s = [s] := by
  rw [linesOf, Text.parts_of_notMem h, List.map_singleton, String.ofList_toList]

/-- A line feed parts the lines before it from those behind it. -/
theorem linesOf_append (s t : String) : linesOf (s ++ "\n" ++ t) = linesOf s ++ linesOf t := by
  have text : (s ++ "\n" ++ t).toList = s.toList ++ '\n' :: t.toList := by simp
  rw [linesOf, text, Text.parts_append_cons, List.map_append]
  rfl

/-- The lines of a text that is made of lines with line feeds between them. -/
theorem linesOf_intercalate {line : String} {rest : List String}
    (h : ∀ l ∈ line :: rest, OneLine l) :
    linesOf (String.intercalate "\n" (line :: rest)) = line :: rest := by
  rw [linesOf, Text.parts_intercalate rfl h, List.map_map]
  simp

/-- The lines of a text that is written line by line, and the empty one behind the last. -/
theorem linesOf_join {lines : List String} (h : ∀ line ∈ lines, OneLine line) :
    linesOf (String.join (lines.map (· ++ "\n"))) = lines ++ [""] := by
  induction lines with
  | nil => rfl
  | cons line rest ih =>
    obtain ⟨first, others⟩ := List.forall_mem_cons.mp h
    rw [List.map_cons, String.join_cons, linesOf_append, linesOf_of_oneLine first, ih others]
    rfl

end BlockLang
