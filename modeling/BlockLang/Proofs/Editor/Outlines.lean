import BlockLang.Editor.Outline
import BlockLang.Proofs.Editor.Declarations
import BlockLang.Proofs.Report.Carets
import BlockLang.Proofs.Scoping.Assignments

/-!
# Outlines and sources

The outline of a document is read off a trace, in which a variable comes behind the value that it is
assigned, and its places are counted in another way than those of the analyser. Still it lists every
name that is declared, from the front of the source to its end, and on the stretch of each entry the
source has the name, where it is assigned to first.

## Main definitions

* `EditorPosition.Before p q`: the order of the places of a document
* `textOn? source range`: the text of a source on a stretch of one line
* `Symbol.Shows source v s`: the entry shows the variable where the source has its name
* `Outlines source events symbols`: the entries show the first declaration of each name

## Main results

* `textOn?_nameRange`: on the stretch of a name the source has the name
* `outlines_of_declaredInOrder`: the outline of variables that stand in order
* `outline_shows_first_declarations`: the outline of every document
-/

namespace BlockLang

open Editor

variable {limit : Nat} {source name : String} {events : List Event} {v w : Variable}
  {front rest : List Char}

/-! ## Where variables are written -/

/-- A variable that is assigned to has its name at its position. -/
theorem AssignedIn.exists_written (h : AssignedIn source v) :
    ∃ front rest, source.toList = front ++ (v.identifier.toList ++ rest) ∧
      v.position = .behind front ∧ '\n' ∉ v.identifier.toList := by
  obtain ⟨before, target, sign, after, split, identifier, -, named, placed⟩ := h
  have given : .ok target ∈ deliveriesOf source := by simp [split]
  obtain ⟨front, cs, text, delivered⟩ := exists_deliveredAt_of_mem_deliveriesOf given
  rw [named, placed]
  cases delivered with
  | @token t rest before position_eq =>
    have written : target.written = target.value.toList := by simp [Token.written, identifier]
    exact ⟨front, rest, written ▸ text, position_eq, written ▸ before.oneLine⟩
  | endOfFile => cases identifier

/-- Variables that an analysis adds are numbers or strings. -/
theorem type_ne_unknown_of_declared
    (h : v ∈ declared (analyseWithin limit (.ofSource source)).events.toList) :
    v.type ≠ .unknown := by
  rcases pulled : (TokenStream.ofSource source).pull with ⟨e | first, input⟩
  · rw [analyseWithin_of_error pulled] at h
    cases h
  · obtain ⟨before, after, split⟩ := exists_split_of_mem_declared h
    obtain ⟨outer, target, inside, -, assigned⟩ :=
      explained_analyseWithin limit pulled before (.add v) after split
    exact assigned.known

namespace Editor

/-! ## Places and stretches -/

/-- The place stands on an earlier line than another one, or before it on the same line. -/
def EditorPosition.Before (p q : EditorPosition) : Prop :=
  p.line < q.line ∨ (p.line = q.line ∧ p.character < q.character)

/-- An editor counts from zero what stands behind a text. -/
theorem toEditor_behind (front : List Char) :
    toEditor (Position.behind front).line (Position.behind front).col =
      ⟨front.count '\n', (front.rtakeWhile (· ≠ '\n')).length⟩ := by
  simp only [toEditor, Position.behind]
  congr 1 <;> omega

/-- An editor keeps the order of places. -/
theorem before_toEditor {p q : Position} (line : 1 ≤ p.line) (col : 1 ≤ p.col) (h : p < q) :
    (toEditor p.line p.col).Before (toEditor q.line q.col) := by
  rcases h with h | ⟨same, h⟩
  · left
    simp only [toEditor]
    omega
  · right
    simp only [toEditor]
    omega

/-- The text of a source on a stretch, which has to end on the line where it starts and not behind
the end of this line. -/
def textOn? (source : String) (range : EditorRange) : Option String :=
  (lineAt? source (range.start.line + 1)).bind fun line =>
    if range.stop.line = range.start.line ∧ 0 ≤ range.start.character ∧
        range.start.character ≤ range.stop.character ∧ range.stop.character ≤ line.length then
      some (String.ofList
        ((line.toList.take range.stop.character.toNat).drop range.start.character.toNat))
    else none

/-- On the stretch of a name the source has the name. -/
theorem textOn?_nameRange (text : source.toList = front ++ (name.toList ++ rest))
    (plain : '\n' ∉ name.toList) :
    textOn? source (nameRange (Position.behind front).line (Position.behind front).col name) =
      some name := by
  have line : lineAround front (name.toList ++ rest) =
      front.rtakeWhile (· ≠ '\n') ++ name.toList ++ rest.takeWhile (· ≠ '\n') := by
    have inside : ∀ c ∈ name.toList, decide (c ≠ '\n') := fun c hc => by
      simpa using fun same : c = '\n' => plain (same ▸ hc)
    rw [lineAround, List.takeWhile_append_of_pos inside, List.append_assoc]
  have shown := lineAt?_behind text
  have number : (Position.behind front).line = front.count '\n' + 1 := rfl
  rw [line, number] at shown
  rw [textOn?, nameRange, toEditor_behind, stretch]
  dsimp only
  generalize front.rtakeWhile (· ≠ '\n') = head at shown ⊢
  have stop : ((head.length : Int) + name.length).toNat = (head ++ name.toList).length := by
    rw [List.length_append, String.length_toList]
    omega
  rw [shown, Option.bind_some, if_pos]
  · rw [stop, Int.toNat_natCast, String.toList_ofList, List.take_left, List.drop_left,
      String.ofList_toList]
  · refine ⟨rfl, Int.natCast_nonneg _, by omega, ?_⟩
    rw [String.length_ofList, List.length_append, ← stop]
    omega

/-- An editor can name the stretch of a name in a source that is not too long. -/
theorem checked_nameRange (text : source.toList = front ++ (name.toList ++ rest))
    (short : source.length ≤ largestCoordinate) :
    (nameRange (Position.behind front).line (Position.behind front).col name).checked =
      .ok (nameRange (Position.behind front).line (Position.behind front).col name) := by
  have whole : source.length = front.length + (name.length + rest.length) := by
    rw [← String.length_toList, text]
    simp only [List.length_append, String.length_toList]
  have lines : front.count '\n' ≤ front.length := List.count_le_length
  have column : (front.rtakeWhile (· ≠ '\n')).length ≤ front.length :=
    (List.rtakeWhile_suffix (p := (· ≠ '\n')) front).length_le
  have named (p : EditorPosition) (line : 0 ≤ p.line ∧ p.line ≤ source.length)
      (character : 0 ≤ p.character ∧ p.character ≤ source.length) : p.checked = .ok p := by
    refine EditorPosition.checked_eq_ok_iff.mpr ⟨rfl, ?_, ?_⟩ <;>
      simp only [isCoordinate, Bool.and_eq_true, decide_eq_true_eq] <;> omega
  rw [nameRange, toEditor_behind, stretch, EditorRange.checked, named, named]
  · rfl
  all_goals dsimp only; omega

/-! ## Entries -/

/-- The entry shows the variable where the source has its name: on one line, from its position on,
which an editor counts from zero. An editor can name this stretch if the source is not too long. -/
structure Symbol.Shows (source : String) (v : Variable) (s : Symbol) : Prop where
  name_eq : s.name = v.identifier
  start_eq : s.range.start = ⟨v.position.line - 1, v.position.col - 1⟩
  oneLine : s.range.stop.line = s.range.start.line
  text_eq : textOn? source s.range = some s.name
  selection_eq : s.selectionRange = s.range
  detail_eq : (v.type = .number ∧ s.detail = "NUMBER") ∨ (v.type = .string ∧ s.detail = "STRING")
  checked_eq : source.length ≤ largestCoordinate → s.range.checked = .ok s.range

theorem shows_ofVariable (assigned : AssignedIn source v) (known : v.type ≠ .unknown) :
    (Symbol.ofVariable v).Shows source v := by
  obtain ⟨front, rest, text, placed, plain⟩ := assigned.exists_written
  have range : (Symbol.ofVariable v).range =
      nameRange (Position.behind front).line (Position.behind front).col v.identifier := by
    rw [Symbol.ofVariable, placed]
  constructor
  · rfl
  · rw [range, nameRange_start, toEditor_behind, placed]
    simp [Position.behind]
  · rfl
  · rw [range]
    exact textOn?_nameRange text plain
  · rfl
  · cases type : v.type with
    | number => exact .inl ⟨rfl, by simp [Symbol.ofVariable, type, ValueType.name]⟩
    | string => exact .inr ⟨rfl, by simp [Symbol.ofVariable, type, ValueType.name]⟩
    | unknown => exact absurd type known
  · rw [range]
    exact checked_nameRange text

/-! ## Outlines -/

/-- The entries show the first variable of each name that the trace adds, from the front of the
source to its end. -/
structure Outlines (source : String) (events : List Event) (symbols : List Symbol) : Prop where
  nodup : (symbols.map Symbol.name).Nodup
  listed_iff : ∀ name, name ∈ symbols.map Symbol.name ↔ ∃ v ∈ declared events, v.identifier = name
  increasing : symbols.Pairwise fun s s' => s.range.start.Before s'.range.start
  first : ∀ s ∈ symbols, ∃ v, FirstOfName (declared events) v ∧ AssignedIn source v ∧
    s.Shows source v

/-- The outline of variables that stand in the source in order. -/
theorem outlines_of_declaredInOrder (order : DeclaredInOrder source events)
    (known : ∀ v ∈ declared events, v.type ≠ .unknown) :
    Outlines source events ((firstDeclarations [] (declared events)).map .ofVariable) := by
  have names : ((firstDeclarations [] (declared events)).map Symbol.ofVariable).map Symbol.name =
      (firstDeclarations [] (declared events)).map Variable.identifier := by
    rw [List.map_map]
    rfl
  have added (v : Variable) (hv : v ∈ firstDeclarations [] (declared events)) :
      v ∈ declared events :=
    (firstDeclarations_sublist [] _).mem hv
  constructor
  · rw [names]
    exact firstDeclarations_nodup [] _
  · intro name
    rw [names, mem_map_firstDeclarations_iff]
  · rw [List.pairwise_map]
    refine (order.increasing.sublist (firstDeclarations_sublist [] _)).imp_of_mem
      fun {v w} hv _ before => ?_
    obtain ⟨front, -, -, placed, -⟩ := (order.assigned v (added v hv)).exists_written
    refine before_toEditor ?_ ?_ before <;> simp only [placed, Position.behind] <;> omega
  · intro s hs
    obtain ⟨v, hv, rfl⟩ := List.mem_map.mp hs
    have assigned := order.assigned v (added v hv)
    exact ⟨v, (mem_firstDeclarations_iff.mp hv).2, assigned,
      shows_ofVariable assigned (known v (added v hv))⟩

/-- The outline of a document shows the first variable of each name that its analysis adds, however
the analysis ends. If the source is not lexed, there is nothing to show. -/
theorem outline_shows_first_declarations (limit : Nat) (uri source : String) :
    Outlines source (analyseText limit uri source).events
        (outline (analyseText limit uri source)) ∧
      (∀ tokens, tokenize source = .ok tokens → (analyseText limit uri source).events =
        (analyseWithin limit (.ofSource source)).events.toList) ∧
      ∀ e, tokenize source = .error e → (analyseText limit uri source).events = [] ∧
        outline (analyseText limit uri source) = [] := by
  cases lexed : tokenize source with
  | error e =>
    have none : (analyseText limit uri source).events = [] := by rw [analyseText, lexed]
    rw [outline, none]
    refine ⟨outlines_of_declaredInOrder (declaredInOrder_nil source) (List.forall_mem_nil _), ?_,
      fun _ _ => ⟨rfl, rfl⟩⟩
    rintro _ ⟨⟩
  | ok tokens =>
    have told : (analyseText limit uri source).events =
        (analyseWithin limit (.ofSource source)).events.toList := by
      rw [analyseText, lexed]
    rw [outline, told]
    refine ⟨outlines_of_declaredInOrder (declaredInOrder_analyseWithin limit source)
      fun _ => type_ne_unknown_of_declared, fun _ _ => rfl, ?_⟩
    rintro _ ⟨⟩

/-- A loop whose body declares a string and gives its counter a new value. -/
def loopSource : String :=
  "begin for (i := 1; i < 3; i := i + 1) do\nx := \"a\"; i := 2 end loop end"

/-- A program with a sign that begins no lexeme. -/
def strayHash : String := "begin x := 1 # end"

theorem outline_shows_first_declarations_loopSource :
    (tokenize loopSource).isOk ∧
      outline (analyseText depthLimit "file:///a.rgg" loopSource) =
        [⟨"i", ⟨⟨0, 11⟩, ⟨0, 12⟩⟩, ⟨⟨0, 11⟩, ⟨0, 12⟩⟩, "NUMBER"⟩,
          ⟨"x", ⟨⟨1, 0⟩, ⟨1, 1⟩⟩, ⟨⟨1, 0⟩, ⟨1, 1⟩⟩, "STRING"⟩] ∧
      Outlines loopSource (analyseWithin depthLimit (.ofSource loopSource)).events.toList
        (outline (analyseText depthLimit "file:///a.rgg" loopSource)) ∧
      tokenize strayHash = .error ⟨"Unexpected character '#'", ⟨1, 14⟩⟩ ∧
      outline (analyseText depthLimit "file:///a.rgg" strayHash) = [] := by
  have ok : (tokenize loopSource).isOk := by decide +kernel
  have stray : tokenize strayHash = .error ⟨"Unexpected character '#'", ⟨1, 14⟩⟩ := by
    decide +kernel
  refine ⟨ok, by decide +kernel, ?_, stray,
    ((outline_shows_first_declarations depthLimit "file:///a.rgg" strayHash).2.2 _ stray).2⟩
  obtain ⟨outlines, told, -⟩ :=
    outline_shows_first_declarations depthLimit "file:///a.rgg" loopSource
  cases lexed : tokenize loopSource with
  | ok tokens => exact told tokens lexed ▸ outlines
  | error e =>
    rw [lexed] at ok
    cases ok

end Editor

end BlockLang
