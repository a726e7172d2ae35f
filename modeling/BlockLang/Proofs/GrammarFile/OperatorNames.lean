import BlockLang.Grammar.Reader
import BlockLang.Proofs.Dictionaries
import BlockLang.Text.Parts

/-!
# Operators by their names

The name of an operator has the components of its characters, with low lines between them. No
component is empty or holds a low line, and none stands for two characters, so the name can be cut
into its components, and they tell the characters. A spelling has a name unless one of its
characters has no component; then the first such character is reported.

## Main definitions

* `FirstUnnamed c cs`: the first character of a text that has no component
* `charOfName? component`: the character that a component stands for
* `componentsOf name`, `operatorOfName? name`: the components of a name, and the operator that it
  stands for

## Main results

* `operatorName_eq_error_iff`: which character is reported
* `operatorName_eq_ok_iff`: names and operators tell each other
* `operatorName_of_read`: the operators of a file have their names there
* `operator_names_tell_operators`: names identify operators, in every file
-/

namespace BlockLang.Grammar

open Text

variable {c : Char} {cs : List Char} {spelling name : String} {names : List String}

/-! ## Components -/

/-- The characters that have a component. -/
def namedChars : List Char := ['<', '>', '=', ':', '+', '-', '*', '/', ';', ',', '(', ')']

theorem mem_namedChars (h : charName? c = some name) : c ∈ namedChars := by
  unfold charName? at h
  split at h
  case h_13 => cases h
  all_goals decide

/-- A component is not empty and holds no low line. -/
theorem component_of_charName? (h : charName? c = some name) : name ≠ "" ∧ '_' ∉ name.toList := by
  have components : ∀ d ∈ namedChars, ∀ n ∈ charName? d, n ≠ "" ∧ '_' ∉ n.toList := by
    simp [namedChars, charName?]
  exact components c (mem_namedChars h) name h

/-- The character that a component stands for. -/
def charOfName? (component : List Char) : Option Char :=
  namedChars.find? fun c => charName? c = some (String.ofList component)

theorem charOfName?_eq_some_iff {component : List Char} :
    charOfName? component = some c ↔ charName? c = some (String.ofList component) := by
  have sound {d : Char} (found : charOfName? component = some d) :
      charName? d = some (String.ofList component) := by
    simpa using List.find?_some found
  refine ⟨sound, fun h => ?_⟩
  have listed : (charOfName? component).isSome :=
    List.find?_isSome.mpr ⟨c, mem_namedChars h, decide_eq_true h⟩
  obtain ⟨d, found⟩ := Option.isSome_iff_exists.mp listed
  -- No other character has this component.
  rw [found, charName?_injective h (sound found)]

/-! ## Spellings -/

theorem charNames_cons_eq_ok_iff : charNames (c :: cs) = .ok names ↔
    ∃ first others, charName? c = some first ∧ charNames cs = .ok others ∧
      names = first :: others := by
  rw [charNames]
  cases charName? c with
  | none => simp
  | some first => cases charNames cs <;> simp [Except.map, eq_comm]

/-- The components of a spelling are not empty and hold no low line. -/
theorem components_of_charNames (h : charNames cs = .ok names) :
    ∀ n ∈ names, n ≠ "" ∧ '_' ∉ n.toList := by
  induction cs generalizing names with
  | nil =>
    cases h
    exact List.forall_mem_nil _
  | cons c cs ih =>
    obtain ⟨first, others, named, rest, rfl⟩ := charNames_cons_eq_ok_iff.mp h
    exact List.forall_mem_cons.mpr ⟨component_of_charName? named, ih rest⟩

/-- The character has no component, and those before it have one. -/
def FirstUnnamed (c : Char) (cs : List Char) : Prop :=
  ∃ front rest, cs = front ++ c :: rest ∧ (∀ d ∈ front, (charName? d).isSome) ∧ charName? c = none

theorem not_firstUnnamed_nil (c : Char) : ¬FirstUnnamed c [] := by
  rintro ⟨front, rest, split, -⟩
  simp at split

theorem firstUnnamed_cons_iff {d : Char} : FirstUnnamed d (c :: cs) ↔
    charName? c = none ∧ c = d ∨ (charName? c).isSome ∧ FirstUnnamed d cs := by
  constructor
  · rintro ⟨front, rest, split, named, unnamed⟩
    cases front with
    | nil =>
      obtain ⟨rfl, rfl⟩ := List.cons.inj split
      exact .inl ⟨unnamed, rfl⟩
    | cons first front =>
      obtain ⟨rfl, rfl⟩ := List.cons.inj split
      obtain ⟨first, others⟩ := List.forall_mem_cons.mp named
      exact .inr ⟨first, front, rest, rfl, others, unnamed⟩
  · rintro (⟨unnamed, rfl⟩ | ⟨first, front, rest, rfl, named, unnamed⟩)
    · exact ⟨[], cs, rfl, List.forall_mem_nil _, unnamed⟩
    · exact ⟨c :: front, rest, rfl, List.forall_mem_cons.mpr ⟨first, named⟩, unnamed⟩

/-- The character that is refused is the first one without a component. -/
theorem charNames_eq_error_iff {d : Char} : charNames cs = .error d ↔ FirstUnnamed d cs := by
  induction cs with
  | nil => simp [charNames, not_firstUnnamed_nil]
  | cons c cs ih =>
    rw [firstUnnamed_cons_iff, ← ih, charNames]
    cases charName? c with
    | none => simp
    | some first => cases charNames cs <;> simp [Except.map]

/-- A text has a character without a component if it has a first one. -/
theorem exists_firstUnnamed_iff : (∃ c, FirstUnnamed c cs) ↔ ∃ c ∈ cs, charName? c = none := by
  induction cs with
  | nil => simp [not_firstUnnamed_nil]
  | cons c cs ih =>
    simp only [firstUnnamed_cons_iff, List.exists_mem_cons_iff, ← ih]
    cases charName? c <;> simp

/-! ## Names -/

/-- The components of a name, which stand between its low lines. The empty name has none. -/
def componentsOf (name : String) : List (List Char) :=
  if name = "" then [] else parts '_' name.toList

/-- The operator that a name stands for. -/
def operatorOfName? (name : String) : Option String :=
  ((componentsOf name).mapM charOfName?).map String.ofList

/-- A name has the components that it was made of. -/
theorem componentsOf_intercalate (h : ∀ n ∈ names, n ≠ "" ∧ '_' ∉ n.toList) :
    componentsOf (String.intercalate "_" names) = names.map String.toList := by
  cases names with
  | nil => rfl
  | cons first others =>
    have free : ∀ n ∈ first :: others, '_' ∉ n.toList := fun n hn => (h n hn).2
    have cut : parts '_' (String.intercalate "_" (first :: others)).toList =
        (first :: others).map String.toList := parts_intercalate rfl free
    have filled : String.intercalate "_" (first :: others) ≠ "" := by
      intro empty
      -- The empty text is one empty part, and the first component is not empty.
      rw [empty] at cut
      exact (h first List.mem_cons_self).1 (String.toList_eq_nil_iff.mp (List.cons.inj cut).1.symm)
    rw [componentsOf, if_neg filled, cut]

/-- The components of a name make it up. -/
theorem intercalate_componentsOf (name : String) :
    String.intercalate "_" ((componentsOf name).map String.ofList) = name := by
  rw [componentsOf]
  split
  · next empty => rw [empty]; rfl
  · apply String.toList_injective
    have lowLine : "_".toList = ['_'] := rfl
    have texts : ((parts '_' name.toList).map String.ofList).map String.toList =
        parts '_' name.toList := by
      simp [List.map_map, Function.comp_def]
    rw [String.toList_intercalate, lowLine, texts, intercalate_parts]

/-- Components are read back one by one. -/
theorem mapM_charOfName?_eq_some_iff {components : List (List Char)} :
    components.mapM charOfName? = some cs ↔
      charNames cs = .ok (components.map String.ofList) := by
  induction components generalizing cs with
  | nil =>
    -- Without components there are no characters, and a character has a component.
    cases cs with
    | nil => simp [charNames]
    | cons c cs => simp [charNames_cons_eq_ok_iff]
  | cons component components ih =>
    cases cs with
    | nil => simp [charNames, Option.bind_eq_some_iff]
    | cons c cs =>
      simp [Option.bind_eq_some_iff, charNames_cons_eq_ok_iff, charOfName?_eq_some_iff, ih]

theorem operatorOfName?_eq_some_iff : operatorOfName? name = some spelling ↔
    charNames spelling.toList = .ok ((componentsOf name).map String.ofList) := by
  rw [← mapM_charOfName?_eq_some_iff, operatorOfName?, Option.map_eq_some_iff]
  constructor
  · rintro ⟨cs, read, rfl⟩
    rw [read, String.toList_ofList]
  · intro read
    exact ⟨spelling.toList, read, String.ofList_toList⟩

/-- Names and operators tell each other: an operator is read back from its name, and what is read
back from a name has this name. -/
theorem operatorName_eq_ok_iff :
    operatorName spelling = .ok name ↔ operatorOfName? name = some spelling := by
  rw [operatorOfName?_eq_some_iff, operatorName]
  constructor
  · intro h
    cases named : charNames spelling.toList with
    | error c => simp [named] at h
    | ok names =>
      obtain rfl : String.intercalate "_" names = name := by simpa [named] using h
      rw [componentsOf_intercalate (components_of_charNames named)]
      simp
  · intro named
    rw [named]
    exact congrArg Except.ok (intercalate_componentsOf name)

/-- A spelling is refused for its first character without a component. -/
theorem operatorName_eq_error_iff {e : UnnamedChar} : operatorName spelling = .error e ↔
    e.operator = spelling ∧ FirstUnnamed e.char spelling.toList := by
  obtain ⟨c, operator⟩ := e
  rw [← charNames_eq_error_iff, operatorName]
  cases charNames spelling.toList <;> simp [eq_comm, and_comm]

/-- The characters of a spelling that has a name have components. -/
theorem isSome_charName?_of_operatorName (h : operatorName spelling = .ok name) :
    ∀ c ∈ spelling.toList, (charName? c).isSome := by
  intro c hc
  by_contra unnamed
  obtain ⟨d, first⟩ := exists_firstUnnamed_iff.mpr ⟨c, hc, by simpa using unnamed⟩
  have refused : operatorName spelling = .error ⟨d, spelling⟩ :=
    operatorName_eq_error_iff.mpr ⟨rfl, first⟩
  rw [h] at refused
  cases refused

/-! ## Files -/

/-- The operators of a list are given their own names. -/
theorem operatorName_of_nameOperators {spellings : List String} {named : List (String × String)}
    (h : GrammarFile.nameOperators spellings = .ok named) :
    named.map Prod.fst = spellings ∧ ∀ entry ∈ named, operatorName entry.1 = .ok entry.2 := by
  induction spellings generalizing named with
  | nil =>
    cases h
    exact ⟨rfl, List.forall_mem_nil _⟩
  | cons spelling spellings ih =>
    rw [GrammarFile.nameOperators] at h
    split at h
    · next name first =>
      cases rest : GrammarFile.nameOperators spellings with
      | error e => simp [rest, Except.map] at h
      | ok others =>
        obtain rfl : (spelling, name) :: others = named := by simpa [rest, Except.map] using h
        obtain ⟨spelled, told⟩ := ih rest
        exact ⟨by rw [List.map_cons, spelled], List.forall_mem_cons.mpr ⟨first, told⟩⟩
    · cases h

/-- The operators of a file that is read have their own names there. -/
theorem operatorName_of_read {text : String} {file : GrammarFile}
    (h : GrammarFile.read text = .ok file) (found : file.operators.find? spelling = some name) :
    operatorName spelling = .ok name := by
  obtain ⟨_, named, -, -, names, entries, -⟩ := GrammarFile.exists_of_read h
  rw [entries, Dictionary.find?_ofList, Option.map_eq_some_iff] at found
  obtain ⟨entry, last, rfl⟩ := found
  obtain rfl : entry.1 = spelling := by simpa using List.find?_some last
  exact (operatorName_of_nameOperators names).2 entry
    (List.mem_reverse.mp (List.mem_of_find?_eq_some last))

/-- Names identify operators. A spelling is refused just if one of its characters has no component,
and for the first such character; any other spelling is read back from its name. So no two spellings
have one name, and no two operators of a file. -/
theorem operator_names_tell_operators :
    (∀ spelling e, operatorName spelling = .error e ↔
      e.operator = spelling ∧ FirstUnnamed e.char spelling.toList) ∧
    (∀ spelling, (∃ e, operatorName spelling = .error e) ↔
      ∃ c ∈ spelling.toList, charName? c = none) ∧
    (∀ spelling name, operatorName spelling = .ok name ↔ operatorOfName? name = some spelling) ∧
    (∀ o p name, operatorName o = .ok name → operatorName p = .ok name → o = p) ∧
    ∀ text file, GrammarFile.read text = .ok file → ∀ o p name,
      file.operators.find? o = some name → file.operators.find? p = some name → o = p := by
  have injective {o p name : String} (ho : operatorName o = .ok name)
      (hp : operatorName p = .ok name) : o = p := by
    rw [operatorName_eq_ok_iff] at ho hp
    exact Option.some.inj (ho.symm.trans hp)
  refine ⟨fun _ _ => operatorName_eq_error_iff, ?_, fun _ _ => operatorName_eq_ok_iff,
    fun _ _ _ => injective, ?_⟩
  · intro spelling
    rw [← exists_firstUnnamed_iff]
    constructor
    · rintro ⟨e, refused⟩
      exact ⟨e.char, (operatorName_eq_error_iff.mp refused).2⟩
    · rintro ⟨c, first⟩
      exact ⟨⟨c, spelling⟩, operatorName_eq_error_iff.mpr ⟨rfl, first⟩⟩
  · intro text file read o p name ho hp
    exact injective (operatorName_of_read read ho) (operatorName_of_read read hp)

/-- A grammar file with one operator. -/
def comparingText : String := "@lexical \x7b @operators \x7b \"<=\" \x7d \x7d"

/-- A comparison is read back from its name, also in a file, and an exclamation mark is refused. -/
theorem operator_names_tell_operators_comparing :
    operatorOfName? "LT_EQ" = some "<=" ∧
      operatorName "<!=?" = .error ⟨'!', "<!=?"⟩ ∧
      ∃ file, GrammarFile.read comparingText = .ok file ∧
        file.operators.find? "<=" = some "LT_EQ" ∧
        ∀ o, file.operators.find? o = some "LT_EQ" → o = "<=" := by
  obtain ⟨refused, -, named, -, identified⟩ := operator_names_tell_operators
  have read : GrammarFile.read comparingText =
      .ok ⟨.ofList [], ["<="], .ofList [("<=", "LT_EQ")], .ofList [], []⟩ := by
    decide +kernel
  refine ⟨(named "<=" "LT_EQ").mp rfl, ?_, _, read, rfl, ?_⟩
  · exact (refused _ _).mpr ⟨rfl, ['<'], ['=', '?'], rfl, List.forall_mem_singleton.mpr rfl, rfl⟩
  · intro o found
    exact identified _ _ read o "<=" "LT_EQ" found rfl

end BlockLang.Grammar
