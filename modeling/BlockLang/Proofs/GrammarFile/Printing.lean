import BlockLang.Proofs.Dictionaries
import BlockLang.Proofs.GrammarFile.Items
import Mathlib.Data.List.Infix
import Mathlib.Data.List.Sort

/-!
# Reading a printed grammar file

A grammar file can be printed from its keywords, its operators, its literal classes and its
productions, and is read back as it was printed, whatever the signs of blocks, quotes and comments
that the patterns and the operators hold. The blanks between the items are free.

## Main definitions

* `IsOperator`, `IsLiteral`, `IsProduction`: the items that can be printed
* `GrammarListing`: what is printed, with the items in the order of the text
* `Layout`: the blanks of a printed file
* `GrammarListing.text layout`: the printed file
* `derivedName o`: the name of an operator
* `Declares g l`: the file declares what the listing has

## Main results

* `sectionBody_listed`: a section is found among others
* `printed_listing_is_read_back`: a printed file is read back
-/

namespace BlockLang.Grammar

open Text

/-! ## Listings -/

/-- An operator of which each character has a name, and no two make the opening sign of a
comment. -/
@[mk_iff]
structure IsOperator (o : String) : Prop where
  nonempty : o ≠ ""
  named : o.toList.all fun c => (charName? c).isSome
  line : ¬ ['-', '-'] <:+: o.toList
  block : ¬ ['(', '*'] <:+: o.toList

/-- A literal class with its pattern, which does not open a block comment. -/
@[mk_iff]
structure IsLiteral (entry : String × String) : Prop where
  name : isName isNameStart entry.1.toList
  pattern : isPattern entry.2.toList
  block : ¬ ['(', '*'] <:+: entry.2.toList

/-- A production with its right-hand side, which stands on one line and opens no block comment. -/
@[mk_iff]
structure IsProduction (entry : String × String) : Prop where
  name : isName Char.isUpper entry.1.toList
  line : '\n' ∉ entry.2.toList
  block : ¬ ['(', '*'] <:+: entry.2.toList

instance (o : String) : Decidable (IsOperator o) := decidable_of_iff' _ (isOperator_iff o)

instance (entry : String × String) : Decidable (IsLiteral entry) :=
  decidable_of_iff' _ (isLiteral_iff entry)

instance (entry : String × String) : Decidable (IsProduction entry) :=
  decidable_of_iff' _ (isProduction_iff entry)

/-- What a grammar file lists: keywords, operators, literal classes with their patterns, and
productions with their right-hand sides. -/
structure GrammarListing where
  keywords : List String
  operators : List String
  literals : List (String × String)
  productions : List (String × String)
  keyword : ∀ k ∈ keywords, isName isNameStart k.toList
  operator : ∀ o ∈ operators, IsOperator o
  literal : ∀ entry ∈ literals, IsLiteral entry
  production : ∀ entry ∈ productions, IsProduction entry

/-- Where the blanks of a grammar file stand: those of the section `@lexical` and of the sections in
it, and those around the equals sign of each literal class. -/
structure Layout where
  lexical : Spacing
  keywords : Spacing
  operators : Spacing
  literals : Spacing
  left : String × String → Blanks
  right : String × String → Blanks

namespace GrammarListing

variable (l : GrammarListing) (layout : Layout)

/-- The keywords as they are printed. -/
def keywordText : List Char := layout.keywords.listed (l.keywords.map String.toList)

/-- The operators as they are printed, each in double quotes. -/
def operatorText : List Char := layout.operators.listed (l.operators.map inQuotes)

/-- The literal classes as they are printed. -/
def literalText : List Char :=
  layout.literals.listed (l.literals.map (literalRule layout.left layout.right))

/-- The body of the section `@lexical`. -/
def lexicalText : List Char :=
  layout.lexical.listed
    [layout.keywords.braced "keywords".toList (l.keywordText layout),
      layout.operators.braced "operators".toList (l.operatorText layout),
      layout.literals.braced "literals".toList (l.literalText layout)]

/-- The printed file: the section `@lexical`, and a line for each production behind it. -/
def text : String :=
  String.ofList (layout.lexical.braced "lexical".toList (l.lexicalText layout) ++
    '\n' :: l.productions.flatMap productionLine)

end GrammarListing

/-! ## What a file declares -/

/-- The name of an operator: those of its characters, with low lines between them. -/
def derivedName (o : String) : String :=
  String.intercalate "_" (o.toList.filterMap charName?)

/-- What a file declares that lists some items. Keywords stand in the order of their first places,
under their names in capitals. Operators stand in the order of lengths, the longest first, and those
of one length in the order of their characters. A literal class stands at its first place and has
its last pattern. -/
structure Declares (g : GrammarFile) (l : GrammarListing) : Prop where
  keywords : g.keywords.entries = l.keywords.eraseDups.map fun k => (k, upper k)
  keywordSet : ∀ k, k ∈ g.sortedKeywords ↔ k ∈ l.keywords
  operators : g.operatorList.Perm l.operators
  sorted : g.operatorList.Pairwise fun o p =>
    p.length < o.length ∨ o.length = p.length ∧ o ≤ p
  operatorNames : g.operators.entries =
    g.operatorList.eraseDups.map fun o => (o, derivedName o)
  literals : g.literals.keys = (l.literals.map Prod.fst).eraseDups
  patterns : ∀ name, g.literals.find? name =
    (l.literals.reverse.find? fun entry => entry.1 = name).map Prod.snd
  productions : g.productions = l.productions.map Prod.fst

/-! ## Sections -/

section Sections

variable {β : Type} {s : Scan β} {l : GrammarListing} {layout : Layout}

theorem isPlain_of_isName {isStart : Char → Bool} (starts : ∀ c, isStart c → isWordChar c)
    {cs : List Char} (h : isName isStart cs) : cs.all isPlain := by
  cases cs with
  | nil => cases h
  | cons c run =>
    obtain ⟨start, inside⟩ := Bool.and_eq_true_iff.mp h
    refine List.all_eq_true.mpr fun d hd => ?_
    rcases List.mem_cons.mp hd with rfl | hd
    · exact isPlain_of_isWordChar (starts d start)
    · exact isPlain_of_isWordChar (List.all_eq_true.mp inside d hd)

/-- Every scan passes the keywords. -/
theorem passes_keywordText (s : Scan β) : s.Passes (l.keywordText layout) := by
  refine s.passes_listed fun item hi => ?_
  obtain ⟨k, hk, rfl⟩ := List.mem_map.mp hi
  exact s.passes_plain (isPlain_of_isName (fun _ => isWordChar_of_isNameStart) (l.keyword k hk))

theorem passes_operatorText (h : ∀ o, IsOperator o → s.Passes (inQuotes o)) :
    s.Passes (l.operatorText layout) := by
  refine s.passes_listed fun item hi => ?_
  obtain ⟨o, ho, rfl⟩ := List.mem_map.mp hi
  exact h o (l.operator o ho)

theorem passes_literalText
    (h : ∀ entry, IsLiteral entry → s.Passes ('/' :: (entry.2.toList ++ ['/']))) :
    s.Passes (l.literalText layout) := by
  refine s.passes_listed fun item hi => ?_
  obtain ⟨entry, he, rfl⟩ := List.mem_map.mp hi
  have name := s.passes_plain
    (isPlain_of_isName (fun _ => isWordChar_of_isNameStart) (l.literal entry he).name)
  have equals : s.Passes ['='] := s.passes_plain rfl
  have pattern := (s.passes_blanks (layout.right entry)).append (h entry (l.literal entry he))
  exact (name.append (s.passes_blanks (layout.left entry))).append (equals.append pattern)

/-- A character without a name stands in no operator. -/
theorem IsOperator.notMem {o : String} (h : IsOperator o) {c : Char} (hc : charName? c = none) :
    c ∉ o.toList := by
  intro mem
  have := List.all_eq_true.mp h.named c mem
  simp [hc] at this

theorem isQuotedRun_of_notMem {mark : Char} {cs : List Char} (hm : mark ∉ cs) (hb : '\\' ∉ cs) :
    isQuotedRun mark cs := by
  fun_induction isQuotedRun mark cs with
  | case1 => rfl
  | case2 c cs ih => simp at hb
  | case3 c cs other ih =>
    simp only [List.mem_cons, not_or] at hm hb
    simp [Ne.symm hm.1, Ne.symm hb.1, ih hm.2 hb.2]

theorem bodies_passes_operatorText : bodies.Passes (l.operatorText layout) :=
  passes_operatorText fun _ h =>
    passes_quoted (isQuotedRun_of_notMem (h.notMem rfl) (h.notMem rfl)) (.inl rfl)

theorem blockComments_passes_operatorText : blockComments.Passes (l.operatorText layout) :=
  passes_operatorText fun _ h =>
    mindsOnly_blockComments.passes_between h.block (by decide) (by decide)

theorem lineComments_passes_operatorText : lineComments.Passes (l.operatorText layout) :=
  passes_operatorText fun _ h =>
    mindsOnly_lineComments.passes_between h.line (by decide) (by decide)

theorem openings_passes_operatorText (name : List Char) :
    (openings name).Passes (l.operatorText layout) := by
  refine passes_operatorText fun o h => Scan.passes_of_forall fun c hc => ?_
  have sign : '@' ∉ o.toList := h.notMem rfl
  refine passes_openings_singleton ?_
  rintro rfl
  simp [inQuotes, sign] at hc

theorem bodies_passes_literalText : bodies.Passes (l.literalText layout) :=
  passes_literalText fun _ h => passes_quoted (Bool.and_eq_true_iff.mp h.pattern).1 (.inr rfl)

theorem blockComments_passes_literalText : blockComments.Passes (l.literalText layout) :=
  passes_literalText fun _ h =>
    mindsOnly_blockComments.passes_between h.block (by decide) (by decide)

/-! ## Blocks -/

variable {name body : List Char} {spacing : Spacing}

theorem bodies_passes_braced (hn : name.all isPlain) (h : bodies.Passes body) :
    bodies.Passes (spacing.braced name body) :=
  Scan.passes_braced ((passes_bodies_singleton (by decide)).append (bodies.passes_plain hn))
    (passes_braces h)

theorem blockComments_passes_braced (hn : name.all isPlain) (h : blockComments.Passes body) :
    blockComments.Passes (spacing.braced name body) := by
  have single {c : Char} (hc : c ≠ '(') := mindsOnly_blockComments.passes_singleton hc
  exact Scan.passes_braced ((single (by decide)).append (blockComments.passes_plain hn))
    ((single (by decide)).append (h.append (single (by decide))))

theorem openings_passes_braced {other : List Char} (hn : other.all isPlain)
    (apart : ∀ cs, name.isPrefixOf (other ++ cs) = false) (h : (openings name).Passes body) :
    (openings name).Passes (spacing.braced other body) := by
  have single {c : Char} (hc : c ≠ '@') : (openings name).Passes [c] := passes_openings_singleton hc
  exact Scan.passes_braced (passes_other_marker hn apart)
    ((single (by decide)).append (h.append (single (by decide))))

/-- A section among others has the body that it was written with, if no section before it is taken
for its opening. -/
theorem sectionBody_listed {marker : String} (hm : marker.toList = '@' :: name) {outer : Spacing}
    (before after : List (List Char)) (h : ∀ item ∈ before, (openings name).Passes item)
    (hb : bodies.Passes body) :
    GrammarFile.section? marker (outer.listed (before ++ spacing.braced name body :: after)) =
      body := by
  obtain ⟨front, rest, split, passed⟩ := exists_listed_eq h (spacing.braced name body) after
  rw [split, GrammarFile.section?, block?_braced hm passed hb]
  rfl

theorem section_keywords :
    GrammarFile.section? "@keywords" (l.lexicalText layout) = l.keywordText layout :=
  sectionBody_listed rfl [] _ (by simp) (passes_keywordText bodies)

theorem section_operators :
    GrammarFile.section? "@operators" (l.lexicalText layout) = l.operatorText layout := by
  refine sectionBody_listed rfl [_] _ ?_ bodies_passes_operatorText
  intro item hi
  obtain rfl := List.mem_singleton.mp hi
  exact openings_passes_braced (by rfl) (fun _ => rfl) (passes_keywordText _)

theorem section_literals :
    GrammarFile.section? "@literals" (l.lexicalText layout) = l.literalText layout := by
  refine sectionBody_listed rfl [_, _] _ ?_ bodies_passes_literalText
  simp only [List.forall_mem_cons]
  refine ⟨?_, ?_, by simp⟩
  · exact openings_passes_braced (by rfl) (fun _ => rfl) (passes_keywordText _)
  · exact openings_passes_braced (by rfl) (fun _ => rfl) (openings_passes_operatorText _)

theorem bodies_passes_lexicalText : bodies.Passes (l.lexicalText layout) := by
  refine bodies.passes_listed ?_
  simp only [List.forall_mem_cons]
  refine ⟨?_, ?_, ?_, by simp⟩
  · exact bodies_passes_braced (by rfl) (passes_keywordText bodies)
  · exact bodies_passes_braced (by rfl) bodies_passes_operatorText
  · exact bodies_passes_braced (by rfl) bodies_passes_literalText

theorem blockComments_passes_lexicalText : blockComments.Passes (l.lexicalText layout) := by
  refine blockComments.passes_listed ?_
  simp only [List.forall_mem_cons]
  refine ⟨?_, ?_, ?_, by simp⟩
  · exact blockComments_passes_braced (by rfl) (passes_keywordText blockComments)
  · exact blockComments_passes_braced (by rfl) blockComments_passes_operatorText
  · exact blockComments_passes_braced (by rfl) blockComments_passes_literalText

theorem blockComments_passes_productionLine {entry : String × String} (h : IsProduction entry) :
    blockComments.Passes (productionLine entry) := by
  have name := blockComments.passes_plain
    (isPlain_of_isName (fun _ => isWordChar_of_isUpper) h.name)
  have equals : blockComments.Passes [' ', '=', ' '] := blockComments.passes_plain rfl
  have side : blockComments.Passes (entry.2.toList ++ [' ']) :=
    mindsOnly_blockComments.passes_of_not_infix h.block (by decide) (by decide)
  have semicolon : blockComments.Passes [';', '\n'] := blockComments.passes_plain rfl
  have split : productionLine entry =
      entry.1.toList ++ [' ', '=', ' '] ++ (entry.2.toList ++ [' ']) ++ [';', '\n'] := by
    simp [productionLine]
  rw [split]
  exact ((name.append equals).append side).append semicolon

/-- There are no comments in a printed file. -/
theorem withoutBlockComments_text :
    withoutBlockComments (l.text layout).toList = (l.text layout).toList := by
  refine withoutBlockComments_eq_self_of_passes ?_
  rw [GrammarListing.text, String.toList_ofList]
  have lines : blockComments.Passes (l.productions.flatMap productionLine) := by
    refine Scan.passes_flatMap fun entry he => ?_
    exact blockComments_passes_productionLine (l.production entry he)
  have newline : blockComments.Passes ['\n'] := blockComments.passes_plain rfl
  exact (blockComments_passes_braced (by rfl) blockComments_passes_lexicalText).append
    (newline.append lines)

/-- The section of the terminals is found in front of the productions. -/
theorem block_lexical :
    block? "@lexical" (l.text layout).toList =
      some ⟨layout.lexical.opening "lexical".toList, l.lexicalText layout,
        '}' :: '\n' :: l.productions.flatMap productionLine⟩ := by
  rw [GrammarListing.text, String.toList_ofList]
  have front : (openings "lexical".toList).Passes [] := Scan.passes_nil _
  exact block?_braced rfl front bodies_passes_lexicalText

end Sections

/-! ## Items -/

section Items

variable (l : GrammarListing) (layout : Layout)

theorem readKeywords_keywordText :
    GrammarFile.readKeywords (l.keywordText layout) = l.keywords := by
  rw [GrammarFile.readKeywords,
    withoutLineComments_eq_self_of_passes (passes_keywordText lineComments)]
  exact matchesIn_listed notAtBlanks_wordAt (fun k hk => wordAt_word (l.keyword k hk)) _

theorem readOperators_operatorText :
    GrammarFile.readOperators (l.operatorText layout) = l.operators.mergeSort spellingOrder := by
  have found : matchesIn operatorAt (l.operatorText layout) = l.operators :=
    matchesIn_listed notAtBlanks_operatorAt
      (fun o ho => operatorAt_quoted (l.operator o ho).nonempty ((l.operator o ho).notMem rfl))
      _
  rw [GrammarFile.readOperators,
    withoutLineComments_eq_self_of_passes lineComments_passes_operatorText, found]

theorem matchesIn_literalText : matchesIn literalAt (l.literalText layout) = l.literals := by
  refine matchesIn_listed notAtBlanks_literalAt (fun entry he => ?_) _
  exact literalAt_rule layout.left layout.right (l.literal entry he).name
    (l.literal entry he).pattern

theorem matchesIn_productions :
    matchesIn productionAt (layout.lexical.opening "lexical".toList ++
      '}' :: '\n' :: l.productions.flatMap productionLine) = l.productions.map Prod.fst := by
  have small : ∀ c ∈ layout.lexical.opening "lexical".toList, c.isUpper = false := by
    have marker : ('@' :: "lexical".toList).all fun c => !c.isUpper := rfl
    intro c hc
    rw [Spacing.opening, List.mem_append, List.mem_append] at hc
    rcases hc with (hc | hc) | hc
    · simpa using List.all_eq_true.mp marker c hc
    · exact isUpper_of_isBlank (layout.lexical.brace.blank c hc)
    · obtain rfl := List.mem_singleton.mp hc
      rfl
  have blank : isBlank '}' = false := rfl
  have capital : '}'.isUpper = false := rfl
  have inside : (some '}').getD '\n' ≠ '\n' := by decide
  have line : '\n' ∉ ([] : List Char) := List.not_mem_nil
  have lines := matchesFrom_restOfLine inside line (l.productions.flatMap productionLine)
  rw [List.nil_append] at lines
  rw [matchesIn, matchesFrom_withoutCapitals small blank capital, lines]
  exact matchesFrom_productionLines (fun entry he => (l.production entry he).name)
    fun entry he => (l.production entry he).line

theorem charNames_eq {cs : List Char} (h : cs.all fun c => (charName? c).isSome) :
    charNames cs = .ok (cs.filterMap charName?) := by
  induction cs with
  | nil => rfl
  | cons c cs ih =>
    obtain ⟨first, others⟩ := Bool.and_eq_true_iff.mp h
    obtain ⟨name, named⟩ := Option.isSome_iff_exists.mp first
    simp [charNames, named, ih others, Except.map]

theorem nameOperators_eq {os : List String} (h : ∀ o ∈ os, IsOperator o) :
    GrammarFile.nameOperators os = .ok (os.map fun o => (o, derivedName o)) := by
  induction os with
  | nil => rfl
  | cons o os ih =>
    have later := ih fun p hp => h p (List.mem_cons_of_mem o hp)
    have named := charNames_eq (h o List.mem_cons_self).named
    simp [GrammarFile.nameOperators, operatorName, named, later, Except.map, derivedName]

end Items

/-! ## The file -/

theorem spellingOrder_iff {o p : String} :
    spellingOrder o p ↔ p.length < o.length ∨ o.length = p.length ∧ o ≤ p := by
  simp [spellingOrder]

theorem pairwise_spellingOrder (os : List String) :
    (os.mergeSort spellingOrder).Pairwise fun o p =>
      p.length < o.length ∨ o.length = p.length ∧ o ≤ p := by
  have trans : ∀ a b c : String, spellingOrder a b → spellingOrder b c → spellingOrder a c := by
    intro a b c hab hbc
    rw [spellingOrder_iff] at hab hbc ⊢
    rcases hab with hab | ⟨hab, lab⟩ <;> rcases hbc with hbc | ⟨hbc, lbc⟩
    · exact .inl (by omega)
    · exact .inl (by omega)
    · exact .inl (by omega)
    · exact .inr ⟨by omega, String.le_trans lab lbc⟩
  have total : ∀ a b : String, spellingOrder a b || spellingOrder b a := by
    intro a b
    rw [Bool.or_eq_true, spellingOrder_iff, spellingOrder_iff]
    rcases Nat.lt_trichotomy a.length b.length with h | h | h
    · exact .inr (.inl h)
    · rcases String.le_total a b with le | le
      · exact .inl (.inr ⟨h, le⟩)
      · exact .inr (.inr ⟨h.symm, le⟩)
    · exact .inl (.inl h)
  exact (List.pairwise_mergeSort trans total os).imp spellingOrder_iff.mp

/-- What a file holds that lists some items. -/
def GrammarListing.file (l : GrammarListing) : GrammarFile where
  keywords := .ofList (l.keywords.map fun k => (k, upper k))
  operatorList := l.operators.mergeSort spellingOrder
  operators := .ofList ((l.operators.mergeSort spellingOrder).map fun o => (o, derivedName o))
  literals := .ofList l.literals
  productions := l.productions.map Prod.fst

theorem read_text (l : GrammarListing) (layout : Layout) :
    GrammarFile.read (l.text layout) = .ok l.file := by
  have operators : ∀ o ∈ l.operators.mergeSort spellingOrder, IsOperator o :=
    fun o ho => l.operator o (List.mem_mergeSort.mp ho)
  unfold GrammarFile.read
  simp only [withoutBlockComments_text, block_lexical, section_keywords, section_operators,
    section_literals, readKeywords_keywordText, readOperators_operatorText,
    matchesIn_literalText, matchesIn_productions, nameOperators_eq operators]
  rfl

theorem declares_file (l : GrammarListing) : Declares l.file l where
  keywords := Dictionary.entries_ofList_map upper l.keywords
  keywordSet k := by
    have keys : l.file.keywords.keys = l.keywords.eraseDups := by
      simp [GrammarListing.file, Dictionary.keys_ofList, Function.comp_def]
    rw [GrammarFile.sortedKeywords, List.mem_mergeSort, keys, List.mem_eraseDups]
  operators := List.mergeSort_perm l.operators spellingOrder
  sorted := pairwise_spellingOrder l.operators
  operatorNames := Dictionary.entries_ofList_map derivedName l.file.operatorList
  literals := Dictionary.keys_ofList l.literals
  patterns := Dictionary.find?_ofList l.literals
  productions := rfl

/-- A printed file is read, and declares what was printed: whatever signs of blocks, quotes and
comments its operators and its patterns hold, each scan of the file passes them. -/
theorem printed_listing_is_read_back (l : GrammarListing) (layout : Layout) :
    ∃ g, GrammarFile.read (l.text layout) = .ok g ∧ Declares g l :=
  ⟨l.file, read_text l layout, declares_file l⟩

/-! ## A file full of signs -/

/-- A listing with signs of blocks, quotes and comments in its operators and patterns, and with
repeated items. -/
def signListing : GrammarListing where
  keywords := ["while", "_if2", "while"]
  operators := ["/", "<", "-", "/=", "("]
  literals := [("rest", "--[^\x7b\"]*"), ("path", "\\/\x7d"), ("rest", "\"(--|\x7b)")]
  productions := [("Loop", "\"while\" Path -- \"/\""), ("Path", "path \x7b")]
  keyword := by decide +kernel
  operator := by decide +kernel
  literal := by decide +kernel
  production := by decide +kernel

/-- A space wherever one is needed, and rules on lines of their own. -/
def narrowLayout : Layout :=
  let none : Blanks := ⟨[], by simp⟩
  let space : Gap := ⟨⟨[' '], by simpa using isBlank_of_isWhitespace rfl⟩, by simp⟩
  let newline : Gap := ⟨⟨['\n'], by simpa using isBlank_of_isWhitespace rfl⟩, by simp⟩
  { lexical := ⟨space.toBlanks, space.toBlanks, space.toBlanks, fun _ => space⟩
    keywords := ⟨space.toBlanks, none, none, fun _ => space⟩
    operators := ⟨space.toBlanks, none, none, fun _ => space⟩
    literals := ⟨space.toBlanks, none, none, fun _ => newline⟩
    left := fun _ => space.toBlanks
    right := fun _ => space.toBlanks }

/-- A file full of signs is read back. -/
theorem printed_listing_is_read_back_signs :
    signListing.text narrowLayout =
        "@lexical \x7b @keywords \x7bwhile _if2 while\x7d " ++
        "@operators \x7b\"/\" \"<\" \"-\" \"/=\" \"(\"\x7d " ++
        "@literals \x7brest = /--[^\x7b\"]*/\npath = /\\/\x7d/\nrest = /\"(--|\x7b)/\x7d \x7d\n" ++
        "Loop = \"while\" Path -- \"/\" ;\nPath = path \x7b ;\n" ∧
      ∃ g, GrammarFile.read (signListing.text narrowLayout) = .ok g ∧
        g.keywords.entries = [("while", "WHILE"), ("_if2", "_IF2")] ∧
        g.literals.keys = ["rest", "path"] ∧
        g.literals.find? "rest" = some "\"(--|\x7b)" ∧
        g.literals.find? "path" = some "\\/\x7d" ∧
        g.productions = ["Loop", "Path"] := by
  obtain ⟨g, read, declares⟩ := printed_listing_is_read_back signListing narrowLayout
  refine ⟨by decide +kernel, g, read, ?_, ?_, ?_, ?_, declares.productions⟩
  · exact declares.keywords.trans (by decide +kernel)
  · exact declares.literals.trans (by decide)
  · exact (declares.patterns "rest").trans (by decide)
  · exact (declares.patterns "path").trans (by decide)

end BlockLang.Grammar
