import BlockLang.Proofs.GrammarFile.OperatorNames
import BlockLang.Proofs.GrammarFile.Patterns
import BlockLang.TokenTable
import Mathlib.Data.List.Basic

/-!
# Accepted token tables

A grammar file is accepted if its keywords and operators are known by their names, if each terminal
symbol is displayed somehow, and if the literal classes are declared. Spellings are not compared
with each other. The name of an operator tells its spelling, so an operator that is accepted is one
of the language and stands for the same terminal symbol there. The name of a keyword is its
upper-case form, which does not tell the keyword: a table is unambiguous just if its keywords are
apart by their upper-case forms from each other, from the operators and from the classes.

## Main definitions

* `TokenTable.Spells s t`: a spelling stands for a terminal symbol
* `TokenTable.Unambiguous`: each terminal symbol has one spelling, and the classes have none
* `TokenTable.OperatorsApart`: operators stand for terminal symbols of their own
* `TokenTable.KeywordsApart`: no keyword has the name of another spelling or of a class
* `TokenTable.Resolved`: spellings stand for what their names say, and none is missing

## Main results

* `operators_find?_eq_some_iff`: the operators of the language are told by their names
* `resolved_of_load`: what an accepted table has
* `Resolved.operatorsApart`: its operators do not clash
* `Resolved.unambiguous_iff`: what makes it unambiguous
* `accepted_table_unambiguous_iff`: all of it for the tables of grammar files
-/

namespace BlockLang

open Grammar

/-- The terminal symbols without a spelling of their own: the literal classes and the end of the
file. -/
def TokenType.classes : List TokenType := [identifier, numberLiteral, stringLiteral, endOfFile]

theorem TokenType.className?_eq_none {t : TokenType} (h : t ∉ classes) : t.className? = none := by
  have others : ∀ u ∈ all, u ∉ classes → u.className? = none := by decide
  exact others t t.mem_all h

theorem TokenType.notMem_classes {t : TokenType} {s : String} (h : t.spelling? = some s) :
    t ∉ classes := by
  have unspelled : ∀ u ∈ classes, u.spelling? = none := by decide
  intro among
  rw [unspelled t among] at h
  cases h

/-- A terminal symbol of the language has one spelling. -/
theorem eq_of_spelled {t : TokenType} {s s' : String}
    (h : keywords.find? s = some t ∨ operators.find? s = some t)
    (h' : keywords.find? s' = some t ∨ operators.find? s' = some t) : s = s' := by
  rw [← spelling?_eq_some_iff] at h h'
  exact Option.some.inj (h.symm.trans h')

/-- The name of a reserved word is its upper-case form. -/
theorem upper_of_keyword {k : String} {t : TokenType} (h : keywords.find? k = some t) :
    Text.upper k = t.name := by
  have named : ∀ entry ∈ keywords.entries, Text.upper entry.1 = entry.2.name := by
    decide +kernel
  exact named (k, t) (Dictionary.mem_of_findEntry_eq_some h)

/-- No operator is written like the name of its terminal symbol. -/
theorem upper_ne_of_operator {o : String} {t : TokenType} (h : operators.find? o = some t) :
    Text.upper o ≠ t.name := by
  have apart : ∀ entry ∈ operators.entries, Text.upper entry.1 ≠ entry.2.name := by
    decide +kernel
  exact apart (o, t) (Dictionary.mem_of_findEntry_eq_some h)

/-- The terminal symbol of an operator has no reserved word. -/
theorem keywords_find?_ne_of_operator {o : String} {t : TokenType}
    (h : operators.find? o = some t) (k : String) : keywords.find? k ≠ some t := by
  intro keyword
  obtain rfl := eq_of_spelled (.inl keyword) (.inr h)
  exact upper_ne_of_operator h (upper_of_keyword keyword)

/-- The operators of the language are told by their names: they are those that have the name of a
terminal symbol, and stand for it. -/
theorem operators_find?_eq_some_iff {o : String} {t : TokenType} :
    operators.find? o = some t ↔ operatorName o = .ok t.name := by
  constructor
  · intro h
    have named : ∀ entry ∈ operators.entries, operatorName entry.1 = .ok entry.2.name := by
      decide +kernel
    exact named (o, t) (Dictionary.mem_of_findEntry_eq_some h)
  · intro h
    have listed : ∀ u ∈ TokenType.all, ∀ p ∈ operatorOfName? u.name,
        operators.find? p = some u := by
      decide +kernel
    exact listed t (TokenType.mem_all t) o (operatorName_eq_ok_iff.mp h)

namespace TokenTable

variable {table : TokenTable} {text what s : String} {t : TokenType}

/-- How a terminal symbol is displayed. -/
def display? (table : TokenTable) (t : TokenType) : Option String := table.displayNames.lookup t

/-- A keyword or an operator stands for a terminal symbol. -/
def Spells (table : TokenTable) (s : String) (t : TokenType) : Prop :=
  table.keywords.find? s = some t ∨ table.operators.find? s = some t

/-- No two spellings stand for one terminal symbol, and none for a class. Every other terminal
symbol has exactly one spelling, and is displayed by it. -/
structure Unambiguous (table : TokenTable) : Prop where
  distinct : ∀ s s' t, table.Spells s t → table.Spells s' t → s = s'
  classes : ∀ s t, table.Spells s t → t ∉ TokenType.classes
  spelled : ∀ t, t ∉ TokenType.classes → ∃! s, table.Spells s t
  displayed : ∀ s t, table.Spells s t → table.display? t = some s

/-- An operator stands neither for the terminal symbol of another one, nor for that of a reserved
word of the language, nor for a class. -/
structure OperatorsApart (table : TokenTable) : Prop where
  operators : ∀ o p t, table.operators.find? o = some t → table.operators.find? p = some t → o = p
  keywords : ∀ o k t, table.operators.find? o = some t → BlockLang.keywords.find? k ≠ some t
  classes : ∀ o t, table.operators.find? o = some t → t ∉ TokenType.classes

/-- The upper-case form of a keyword is not that of another one, and neither is it the name of an
operator of the table or of a class. -/
structure KeywordsApart (table : TokenTable) : Prop where
  keywords : ∀ k ∈ table.keywords.keys, ∀ l ∈ table.keywords.keys,
    Text.upper k = Text.upper l → k = l
  operators : ∀ k ∈ table.keywords.keys, ∀ o ∈ table.operators.keys,
    operatorName o ≠ .ok (Text.upper k)
  classes : ∀ k ∈ table.keywords.keys, ∀ t ∈ TokenType.classes, Text.upper k ≠ t.name

/-- Operators are those of the language, keywords stand for the terminal symbols that their
upper-case forms name, and each terminal symbol but the classes is displayed by one of its
spellings. -/
structure Resolved (table : TokenTable) : Prop where
  operator : ∀ o t, table.operators.find? o = some t → BlockLang.operators.find? o = some t
  keyword : ∀ k t, table.keywords.find? k = some t → Text.upper k = t.name
  displayed : ∀ t, t ∉ TokenType.classes → ∃ s, table.Spells s t ∧ table.display? t = some s

/-! ## Resolving names -/

theorem findEntry_resolveEntries {l : List (String × String)} {r : List (String × TokenType)}
    (h : resolveEntries what l = .ok r) (s : String) (t : TokenType) :
    Dictionary.findEntry s r = some t ↔ Dictionary.findEntry s l = some t.name := by
  induction l generalizing r with
  | nil =>
    cases h
    simp [Dictionary.findEntry]
  | cons entry rest ih =>
    obtain ⟨spelling, name⟩ := entry
    rw [resolveEntries] at h
    split at h
    · cases h
    · next u known =>
      obtain rfl := TokenType.ofName?_eq_some_iff.mp known
      cases later : resolveEntries what rest with
      | error e => simp [later, Except.map] at h
      | ok others =>
        obtain rfl : (spelling, u) :: others = r := by simpa [later, Except.map] using h
        simp only [Dictionary.findEntry]
        split
        · -- The first entry is found, and names tell terminal symbols.
          simp only [Option.some.injEq]
          exact ⟨congrArg TokenType.name, TokenType.name_injective⟩
        · exact ih later

theorem entries_of_resolve {d : Dictionary String String} {r : Dictionary String TokenType}
    (h : resolve what d = .ok r) : resolveEntries what d.entries = .ok r.entries := by
  rw [resolve] at h
  cases entries : resolveEntries what d.entries with
  | error e => simp [entries, Except.map] at h
  | ok resolved =>
    obtain rfl : Dictionary.mk resolved = r := by simpa [entries, Except.map] using h
    rfl

/-- Spellings stand for the terminal symbols that their names tell. -/
theorem find?_of_resolve {d : Dictionary String String} {r : Dictionary String TokenType}
    (h : resolve what d = .ok r) : r.find? s = some t ↔ d.find? s = some t.name :=
  findEntry_resolveEntries (entries_of_resolve h) s t

theorem nodup_keys_of_resolve {d : Dictionary String String} {r : Dictionary String TokenType}
    (h : resolve what d = .ok r) (nodup : d.keys.Nodup) : r.keys.Nodup := by
  rw [Dictionary.keys, resolveEntries_keys (entries_of_resolve h)]
  exact nodup

/-! ## Displaying terminal symbols -/

/-- The last spelling of a terminal symbol stands for it. -/
theorem find?_of_lastSpelling? {d : Dictionary String TokenType} (nodup : d.keys.Nodup)
    (h : lastSpelling? t d = some s) : d.find? s = some t := by
  obtain ⟨entry, last, rfl⟩ := Option.map_eq_some_iff.mp h
  have listed := List.mem_reverse.mp (List.mem_of_find?_eq_some last)
  obtain rfl : entry.2 = t := by simpa using List.find?_some last
  exact Dictionary.findEntry_of_mem nodup listed

/-- Where a grammar file is accepted, its spellings are resolved, and each terminal symbol is
displayed. -/
theorem display?_of_ofGrammar {file : GrammarFile} (h : ofGrammar file = .ok table) :
    resolve "keyword" file.keywords = .ok table.keywords ∧
      resolve "operator" file.operators = .ok table.operators ∧
      ∀ t, ∃ name, displayName? table.keywords table.operators t = some name ∧
        table.display? t = some name := by
  simp only [ofGrammar, bind, Except.bind] at h
  split at h
  · cases h
  · next keywords resolvedKeywords =>
    split at h
    · cases h
    · next operators resolvedOperators =>
      split at h
      · cases h
      · next none_missing =>
        split at h
        · cases h
        · cases h
          refine ⟨resolvedKeywords, resolvedOperators, fun t => ?_⟩
          -- The terminal symbols that are not displayed are the missing ones, and there are none.
          have shown : (displayName? keywords operators t).isSome := by
            by_contra hidden
            refine none_missing (List.ne_nil_of_mem (a := t) ?_)
            exact List.mem_filter.mpr ⟨TokenType.mem_all t, by simpa using hidden⟩
          obtain ⟨name, named⟩ := Option.isSome_iff_exists.mp shown
          refine ⟨name, named, ?_⟩
          rw [display?, List.lookup_graph _ (TokenType.mem_all t), named, Option.getD_some]

theorem exists_of_load (h : load text = .ok table) :
    ∃ file, GrammarFile.read text = .ok file ∧ ofGrammar file = .ok table := by
  rw [load] at h
  split at h
  · cases h
  · next file read => exact ⟨file, read, h⟩

/-! ## Tables of grammar files -/

/-- A keyword of a file has its upper-case form for a name. -/
theorem upper_of_read {file : GrammarFile} {k name : String} (h : GrammarFile.read text = .ok file)
    (found : file.keywords.find? k = some name) : Text.upper k = name := by
  obtain ⟨lexical, _, -, -, -, -, keywords⟩ := GrammarFile.exists_of_read h
  rw [keywords] at found
  have listed := Dictionary.mem_of_findEntry_eq_some found
  rw [Dictionary.entries_ofList_map] at listed
  obtain ⟨l, -, same⟩ := List.mem_map.mp listed
  cases same
  rfl

theorem nodup_keys_of_read {file : GrammarFile} (h : GrammarFile.read text = .ok file) :
    file.keywords.keys.Nodup ∧ file.operators.keys.Nodup := by
  obtain ⟨_, _, -, -, -, operators, keywords⟩ := GrammarFile.exists_of_read h
  rw [keywords, operators]
  exact ⟨Dictionary.nodup_keys_ofList _, Dictionary.nodup_keys_ofList _⟩

/-- An accepted table has operators of the language, and keywords by their names, and displays each
terminal symbol but the classes by one of its spellings. -/
theorem resolved_of_load (h : load text = .ok table) : table.Resolved := by
  obtain ⟨file, read, accepted⟩ := exists_of_load h
  obtain ⟨keywords, operators, displayed⟩ := display?_of_ofGrammar accepted
  obtain ⟨nodupKeywords, nodupOperators⟩ := nodup_keys_of_read read
  refine ⟨?_, ?_, ?_⟩
  · intro o t found
    exact operators_find?_eq_some_iff.mpr
      (operatorName_of_read read ((find?_of_resolve operators).mp found))
  · intro k t found
    exact upper_of_read read ((find?_of_resolve keywords).mp found)
  · intro t other
    obtain ⟨name, shown, display⟩ := displayed t
    refine ⟨name, ?_, display⟩
    -- There is no class name to fall back to, so an operator or a keyword is displayed.
    rw [displayName?, TokenType.className?_eq_none other, Option.or_none,
      Option.or_eq_some_iff] at shown
    rcases shown with last | ⟨-, last⟩
    · exact .inr (find?_of_lastSpelling? (nodup_keys_of_resolve operators nodupOperators) last)
    · exact .inl (find?_of_lastSpelling? (nodup_keys_of_resolve keywords nodupKeywords) last)

/-! ## Unambiguous tables -/

namespace Resolved

/-- The operators of a table are apart, since they are operators of the language. -/
theorem operatorsApart (h : table.Resolved) : table.OperatorsApart where
  operators o p t ho hp := eq_of_spelled (.inr (h.operator o t ho)) (.inr (h.operator p t hp))
  keywords o k t ho := keywords_find?_ne_of_operator (h.operator o t ho) k
  classes o t ho := TokenType.notMem_classes (spelling?_eq_some_iff.mpr (.inr (h.operator o t ho)))

/-- A keyword has the name of an operator if both stand for one terminal symbol. -/
theorem operatorName_eq_upper (h : table.Resolved) {k o : String}
    (hk : table.keywords.find? k = some t) (ho : table.operators.find? o = some t) :
    operatorName o = .ok (Text.upper k) := by
  rw [h.keyword k t hk]
  exact operators_find?_eq_some_iff.mp (h.operator o t ho)

/-- In an unambiguous table the keywords are apart. -/
theorem keywordsApart (h : table.Resolved) (unambiguous : table.Unambiguous) :
    table.KeywordsApart := by
  refine ⟨?_, ?_, ?_⟩
  · intro k hk l hl same
    obtain ⟨t, found⟩ := Dictionary.mem_keys_iff.mp hk
    obtain ⟨u, other⟩ := Dictionary.mem_keys_iff.mp hl
    rw [h.keyword k t found, h.keyword l u other] at same
    obtain rfl := TokenType.name_injective same
    exact unambiguous.distinct k l t (.inl found) (.inl other)
  · intro k hk o ho same
    obtain ⟨t, found⟩ := Dictionary.mem_keys_iff.mp hk
    obtain ⟨u, other⟩ := Dictionary.mem_keys_iff.mp ho
    have standard := h.operator o u other
    -- Both stand for the terminal symbol of this name, so the keyword would be the operator.
    rw [h.keyword k t found] at same
    obtain rfl : u = t :=
      Option.some.inj (standard.symm.trans (operators_find?_eq_some_iff.mpr same))
    obtain rfl := unambiguous.distinct k o u (.inl found) (.inr other)
    exact upper_ne_of_operator standard (h.keyword k u found)
  · intro k hk t among same
    obtain ⟨u, found⟩ := Dictionary.mem_keys_iff.mp hk
    rw [h.keyword k u found] at same
    obtain rfl := TokenType.name_injective same
    exact unambiguous.classes k u (.inl found) among

/-- A table whose keywords are apart is unambiguous. -/
theorem unambiguous (h : table.Resolved) (apart : table.KeywordsApart) : table.Unambiguous := by
  -- A keyword that stood for the terminal symbol of an operator would have the operator's name.
  have mixed {k o : String} {t : TokenType} (hk : table.keywords.find? k = some t)
      (ho : table.operators.find? o = some t) : False :=
    apart.operators k (Dictionary.mem_keys_iff.mpr ⟨t, hk⟩) o (Dictionary.mem_keys_iff.mpr ⟨t, ho⟩)
      (h.operatorName_eq_upper hk ho)
  have distinct : ∀ s s' t, table.Spells s t → table.Spells s' t → s = s' := by
    rintro s s' t (hs | hs) (hs' | hs')
    · refine apart.keywords s (Dictionary.mem_keys_iff.mpr ⟨t, hs⟩) s'
        (Dictionary.mem_keys_iff.mpr ⟨t, hs'⟩) ?_
      rw [h.keyword s t hs, h.keyword s' t hs']
    · exact (mixed hs hs').elim
    · exact (mixed hs' hs).elim
    · exact h.operatorsApart.operators s s' t hs hs'
  have classes : ∀ s t, table.Spells s t → t ∉ TokenType.classes := by
    rintro s t (hs | hs) among
    · exact apart.classes s (Dictionary.mem_keys_iff.mpr ⟨t, hs⟩) t among (h.keyword s t hs)
    · exact h.operatorsApart.classes s t hs among
  refine ⟨distinct, classes, ?_, ?_⟩
  · intro t other
    obtain ⟨s, spelled, -⟩ := h.displayed t other
    exact ⟨s, spelled, fun s' spelled' => distinct s' s t spelled' spelled⟩
  · intro s t spelled
    obtain ⟨s', spelled', display⟩ := h.displayed t (classes s t spelled)
    rw [display, distinct s s' t spelled spelled']

/-- A table is unambiguous just if its keywords are apart. -/
theorem unambiguous_iff (h : table.Resolved) : table.Unambiguous ↔ table.KeywordsApart :=
  ⟨h.keywordsApart, h.unambiguous⟩

end Resolved

/-- An accepted table has operators of the language, and keywords by their upper-case forms, and no
terminal symbol but the classes is without a spelling. Its operators are apart, and it is
unambiguous just if its keywords are apart too. -/
theorem accepted_table_unambiguous_iff (h : load text = .ok table) :
    table.Resolved ∧ table.OperatorsApart ∧ (table.Unambiguous ↔ table.KeywordsApart) := by
  have resolved := resolved_of_load h
  exact ⟨resolved, resolved.operatorsApart, resolved.unambiguous_iff⟩

/-- The reserved words of the language are apart, whatever operators there are. -/
theorem keywordsApart_of_reserved
    (h : ∀ k ∈ table.keywords.keys, k ∈ BlockLang.keywords.keys) : table.KeywordsApart := by
  have reserved : ∀ k ∈ table.keywords.keys, ∃ t, BlockLang.keywords.find? k = some t :=
    fun k hk => Dictionary.mem_keys_iff.mp (h k hk)
  refine ⟨?_, ?_, ?_⟩
  · intro k hk l hl same
    obtain ⟨t, first⟩ := reserved k hk
    obtain ⟨u, second⟩ := reserved l hl
    rw [upper_of_keyword first, upper_of_keyword second] at same
    obtain rfl := TokenType.name_injective same
    exact eq_of_spelled (.inl first) (.inl second)
  · intro k hk o _ same
    obtain ⟨t, keyword⟩ := reserved k hk
    rw [upper_of_keyword keyword] at same
    exact keywords_find?_ne_of_operator (operators_find?_eq_some_iff.mpr same) k keyword
  · intro k hk u among same
    obtain ⟨t, keyword⟩ := reserved k hk
    rw [upper_of_keyword keyword] at same
    obtain rfl := TokenType.name_injective same
    exact TokenType.notMem_classes (spelling?_eq_some_iff.mpr (.inl keyword)) among

/-! ## The language and its neighbours -/

/-- The keywords, operators and literal classes of the language, and further keywords. -/
def listingWith (further : List String)
    (h : ∀ k ∈ further, isName isNameStart k.toList) : GrammarListing where
  keywords := BlockLang.keywords.keys ++ further
  operators := BlockLang.operators.keys
  literals := literalPatterns
  productions := []
  keyword := by
    intro k hk
    rcases List.mem_append.mp hk with reserved | hk
    · have names : ∀ k ∈ BlockLang.keywords.keys, isName isNameStart k.toList := by decide
      exact names k reserved
    · exact h k hk
  operator := by decide +kernel
  literal := by decide +kernel
  production := by simp

/-- The operators of a printed listing are in the order of spellings already. -/
theorem load_listingWith {further : List String} (h : ∀ k ∈ further, isName isNameStart k.toList)
    (layout : Layout) : load ((listingWith further h).text layout) = ofGrammar {
      keywords := .ofList ((BlockLang.keywords.keys ++ further).map fun k => (k, Text.upper k))
      operatorList := BlockLang.operators.keys
      operators := .ofList (BlockLang.operators.keys.map fun o => (o, derivedName o))
      literals := .ofList literalPatterns
      productions := [] } := by
  have sorted : BlockLang.operators.keys.mergeSort spellingOrder = BlockLang.operators.keys :=
    List.mergeSort_of_pairwise (by decide +kernel)
  rw [load, read_text]
  simp only [GrammarListing.file, listingWith, sorted]
  rfl

/-- The table of the language. -/
def standard : TokenTable :=
  ⟨BlockLang.keywords, BlockLang.operators, TokenType.all.map fun t => (t, t.displayName)⟩

/-- The keywords, operators and literal classes of the language are accepted, and their table is
unambiguous. -/
theorem accepted_table_unambiguous_iff_standard :
    load ((listingWith [] (List.forall_mem_nil _)).text narrowLayout) = .ok standard ∧
      standard.Resolved ∧ standard.OperatorsApart ∧ standard.Unambiguous := by
  have accepted : load ((listingWith [] (List.forall_mem_nil _)).text narrowLayout) =
      .ok standard := by
    rw [load_listingWith]
    decide +kernel
  obtain ⟨resolved, apart, unambiguous⟩ := accepted_table_unambiguous_iff accepted
  exact ⟨accepted, resolved, apart, unambiguous.mpr (keywordsApart_of_reserved fun _ hk => hk)⟩

/-- A grammar file with three keywords more than the language has. -/
def crowdedText : String :=
  "@lexical \x7b @keywords \x7bbegin end if then else while loop do until for call " ++
  "BEGIN lt eof\x7d " ++
  "@operators \x7b\"/=\" \":=\" \"<=\" \">=\" \"(\" \")\" \"*\" \"+\" \",\" \"-\" \"/\" \";\" " ++
  "\"<\" \"=\" \">\"\x7d " ++
  "@literals \x7bidentifier = /[A-Za-z_][A-Za-z0-9_]*/\n" ++
  "numberConstant = /[0-9]+(\\.[0-9]+)?/\n" ++
  "stringConstant = /\"([^\"\\\\\\n]|\\\\.)*\"/\x7d \x7d\n"

/-- The table of this file. -/
def crowded : TokenTable where
  keywords := ⟨BlockLang.keywords.entries ++
    [("BEGIN", .beginKeyword), ("lt", .less), ("eof", .endOfFile)]⟩
  operators := BlockLang.operators
  displayNames := TokenType.all.map fun t =>
    match t with
    | .beginKeyword => (t, "BEGIN")
    | .endOfFile => (t, "eof")
    | _ => (t, t.displayName)

/-- The file is accepted, though two keywords stand for one terminal symbol, a keyword and an
operator for another, and a keyword for the end of the file. -/
theorem crowded_table_is_accepted :
    load crowdedText = .ok crowded ∧
      crowded.Spells "begin" .beginKeyword ∧ crowded.Spells "BEGIN" .beginKeyword ∧
      crowded.Spells "<" .less ∧ crowded.Spells "lt" .less ∧ crowded.Spells "eof" .endOfFile ∧
      ¬crowded.Unambiguous := by
  have text : (listingWith ["BEGIN", "lt", "eof"] (by decide)).text narrowLayout =
      crowdedText := by
    decide +kernel
  have accepted : load crowdedText = .ok crowded := by
    rw [← text, load_listingWith]
    decide +kernel
  refine ⟨accepted, .inl rfl, .inl rfl, .inr rfl, .inl rfl, .inl rfl, ?_⟩
  intro unambiguous
  have same := unambiguous.distinct "begin" "BEGIN" .beginKeyword (.inl rfl) (.inl rfl)
  exact absurd same (by decide)

end TokenTable

end BlockLang
