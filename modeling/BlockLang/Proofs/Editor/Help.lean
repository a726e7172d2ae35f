import BlockLang.Proofs.Editor.Characters
import BlockLang.Proofs.Editor.Hovering
import BlockLang.Proofs.Lexing.Printable

/-!
# Help on keywords

What an editor shows at a place goes by the token that stands there: the help of a keyword, the type
of an identifier, and nothing at a number, an operator or a gap. But help is looked up by the text of
a token, and the text of a string constant may be that of a keyword. Then its help is shown as well.

## Main definitions

* `TokenType.isKeyword`: the terminal symbol is a keyword
* `helpText word help`: how an editor shows the help of a keyword
* `HoverByClass tokens d`: what is shown at the places of a document

## Main results

* `keywordHelp?_eq_none`: there is help on keywords only
* `hover?_of_standsAt`, `hover?_of_string`: what is shown where a token stands
* `hover_follows_class`: what is shown at the places of a document
-/

namespace BlockLang

open Editor

variable {source : String} {tokens : List Token} {t : Token} {p : EditorPosition} {k limit : Nat}

/-! ## Classes of tokens -/

/-- The terminal symbol is a keyword. -/
def TokenType.isKeyword (type : TokenType) : Bool :=
  keywords.entries.any fun entry => entry.2 = type

theorem TokenType.isKeyword_of_find? {type : TokenType} {word : String}
    (h : keywords.find? word = some type) : type.isKeyword :=
  List.any_eq_true.mpr ⟨_, Dictionary.mem_of_findEntry_eq_some h, decide_eq_true rfl⟩

/-- The text of a token that stands at a place of a source is one that its class allows. -/
theorem printable_of_standsAt (lexed : tokenize source = .ok tokens) (ht : t ∈ tokens)
    (h : t.StandsAt p) : t.Printable := by
  obtain ⟨front, cs, -, delivered⟩ := exists_deliveredAt_of_mem lexed ht
  cases delivered with
  | token before => exact Token.printable_of_before before
  | endOfFile =>
    -- The end of the file has no characters.
    obtain ⟨k, hk, -⟩ := h
    cases hk

/-- The text of a keyword is its spelling. -/
theorem Token.Printable.spelling?_eq (h : t.Printable) (keyword : t.type.isKeyword) :
    t.type.spelling? = some t.value := by
  cases h with
  | spelled spelling => exact spelling
  | identifier type | number type | string type =>
    rw [type] at keyword
    exact absurd keyword (by decide)

namespace Editor

/-! ## Help -/

/-- How an editor shows the help of a keyword. -/
def helpText (word help : String) : String := "**\x60" ++ word ++ "\x60**: " ++ help

/-- There is help on keywords only. -/
theorem keywordHelp?_eq_none {word : String} (h : keywords.find? word = none) :
    keywordHelp? word = none := by
  fun_cases keywordHelp? word with
  | case7 => rfl
  | _ => exact absurd h (by decide +kernel)

/-- A number is not spelled like a keyword. -/
theorem find?_keywords_of_isNumber {text : String} (h : IsNumber text.toList) :
    keywords.find? text = none := by
  cases found : keywords.find? text with
  | none => rfl
  | some type =>
    have word := isWord_of_keyword found
    obtain ⟨d, run, split, digit⟩ : ∃ d run, text.toList = d :: run ∧ Text.isDigit d := by
      generalize text.toList = cs at h
      cases h with
      | whole nonempty digits | fraction nonempty digits =>
        obtain ⟨d, run, rfl⟩ := List.exists_cons_of_ne_nil nonempty
        exact ⟨d, _, rfl, digits d List.mem_cons_self⟩
    -- A word does not begin with a digit.
    rw [split] at word
    obtain ⟨start, -⟩ := Bool.and_eq_true_iff.mp word
    rw [isDigit_of_isWordStart start] at digit
    cases digit

/-- An operator is not spelled like a keyword. -/
theorem find?_keywords_of_operator {text : String} {type : TokenType}
    (h : operators.find? text = some type) : keywords.find? text = none := by
  have signs : ∀ entry ∈ operators.entries, keywords.find? entry.1 = none := by decide
  exact signs _ (Dictionary.mem_of_findEntry_eq_some h)

/-- There is no help on a token that is neither a keyword nor a word. -/
theorem keywordHelp?_of_printable (h : t.Printable) (keyword : t.type.isKeyword = false)
    (identifier : t.type ≠ .identifier) (string : t.type ≠ .stringLiteral) :
    keywordHelp? t.value = none := by
  apply keywordHelp?_eq_none
  cases h with
  | identifier type => exact absurd type identifier
  | number _ number => exact find?_keywords_of_isNumber number
  | string type => exact absurd type string
  | spelled spelling =>
    rcases spelling?_eq_some_iff.mp spelling with word | sign
    · rw [TokenType.isKeyword_of_find? word] at keyword
      cases keyword
    · exact find?_keywords_of_operator sign

/-! ## Places of a document -/

variable {d : DocumentAnalysis}

/-- What is shown where a token is found. -/
theorem hover?_of_tokenAt? (shown : d.tokens = some tokens) (found : tokenAt? tokens p = some t) :
    hover? d p = hoverText? d.events t := by
  rw [hover?, shown]
  simp only [Option.bind_eq_bind, Option.bind_some, found]

/-- Where no token is found, nothing is shown. -/
theorem hover?_of_missing (shown : d.tokens = some tokens) (missing : tokenAt? tokens p = none) :
    hover? d p = none := by
  rw [hover?, shown]
  simp only [Option.bind_eq_bind, Option.bind_some, missing, Option.bind_none]

/-- What is shown where a token other than a string constant stands. -/
theorem hover?_of_standsAt (lexed : tokenize source = .ok tokens) (shown : d.tokens = some tokens)
    (ht : t ∈ tokens) (string : t.type ≠ .stringLiteral) (h : t.StandsAt p) :
    hover? d p = hoverText? d.events t := by
  obtain ⟨k, hk, rfl⟩ := h
  rw [t.length_written, if_neg string, Nat.add_zero] at hk
  exact hover?_of_tokenAt? shown (tokenAt?_placeAt lexed ht hk)

/-- What is shown where a string constant stands. -/
theorem hover?_of_string (lexed : tokenize source = .ok tokens) (shown : d.tokens = some tokens)
    (ht : t ∈ tokens) (string : t.type = .stringLiteral) (hk : k < t.written.length) :
    hover? d (t.placeAt k) = if k + 2 < t.written.length then
      (keywordHelp? t.value).map (helpText t.value) else none := by
  have length := t.length_written
  rw [if_pos string] at length
  split
  · have inside : k < t.value.length := by omega
    rw [hover?_of_tokenAt? shown (tokenAt?_placeAt lexed ht inside), hoverText?,
      if_neg (by simp [string])]
    rfl
  · have last : t.written.length ≤ k + 2 := by omega
    exact hover?_of_missing shown
      ((tokenAt?_eq_none_iff lexed).mpr (.inr (.inr ⟨t, ht, string, k, hk, last, rfl⟩)))

/-- What is shown of an identifier. -/
theorem hoverText?_of_identifier {events : List Event} (identifier : t.type = .identifier) :
    hoverText? events t =
      (latestDeclaration? events t.value t.position).map fun v => typeText t.value v.type := by
  rw [hoverText?, if_pos identifier]
  cases latest : latestDeclaration? events t.value t.position with
  | none => rfl
  | some v =>
    obtain ⟨-, named, -⟩ := of_latestDeclaration?_eq_some latest
    rw [Option.map_some, Option.map_some, named]
    rfl

/-- What is shown of any other token. -/
theorem hoverText?_of_other {events : List Event} (other : t.type ≠ .identifier) :
    hoverText? events t = (keywordHelp? t.value).map (helpText t.value) := by
  rw [hoverText?, if_neg other]
  rfl

/-! ## Classes and places -/

/-- What is shown at the places of a document. Where a keyword stands it is the help of the keyword,
if there is one, where an identifier stands the type that its latest declaration gave it, and where a
number or an operator stands it is nothing, as it is where no token stands. Where a string constant
stands it is the help of the keyword that the constant is spelled like, if there is one, but for the
last two of its characters. -/
structure HoverByClass (tokens : List Token) (d : DocumentAnalysis) : Prop where
  keyword : ∀ p, ∀ t ∈ tokens, t.StandsAt p → t.type.isKeyword →
    ∃ word, t.type.spelling? = some word ∧ hover? d p = (keywordHelp? word).map (helpText word)
  identifier : ∀ p, ∀ t ∈ tokens, t.StandsAt p → t.type = .identifier →
    hover? d p = (latestDeclaration? d.events t.value t.position).map fun v =>
      typeText t.value v.type
  string : ∀ t ∈ tokens, t.type = .stringLiteral → ∀ k < t.written.length,
    hover? d (t.placeAt k) = if k + 2 < t.written.length then
      (keywordHelp? t.value).map (helpText t.value) else none
  silent : ∀ p, ∀ t ∈ tokens, t.StandsAt p → t.type.isKeyword = false → t.type ≠ .identifier →
    t.type ≠ .stringLiteral → hover? d p = none
  outside : ∀ p, (∀ t ∈ tokens, ¬t.StandsAt p) → hover? d p = none

/-- What an editor shows at the places of a document whose source is lexed. -/
theorem hover_follows_class {uri : String} {d : DocumentAnalysis}
    (lexed : tokenize source = .ok tokens) (h : analyseDocument limit uri source = .ok d) :
    HoverByClass tokens d := by
  obtain ⟨shown, -⟩ := tokens_and_events_of_lexed lexed h
  constructor
  · intro p t ht stands keyword
    have other : t.type ≠ .identifier ∧ t.type ≠ .stringLiteral := by
      constructor <;> rintro type <;> rw [type] at keyword <;> exact absurd keyword (by decide)
    refine ⟨t.value, (printable_of_standsAt lexed ht stands).spelling?_eq keyword, ?_⟩
    rw [hover?_of_standsAt lexed shown ht other.2 stands, hoverText?_of_other other.1]
  · intro p t ht stands identifier
    rw [hover?_of_standsAt lexed shown ht (by simp [identifier]) stands,
      hoverText?_of_identifier identifier]
  · intro t ht string k hk
    exact hover?_of_string lexed shown ht string hk
  · intro p t ht stands keyword identifier string
    have printable := printable_of_standsAt lexed ht stands
    rw [hover?_of_standsAt lexed shown ht string stands, hoverText?_of_other identifier,
      keywordHelp?_of_printable printable keyword identifier string]
    rfl
  · -- A token that was found would stand at the place.
    intro p free
    refine hover?_of_missing shown (Option.eq_none_iff_forall_ne_some.mpr fun t found => ?_)
    obtain ⟨ht, k, hk, rfl⟩ := (tokenAt?_eq_some_iff lexed).mp found
    exact free t ht (Token.standsAt_of_lt hk)

/-- A string that is spelled like a keyword. -/
def keywordString : String := "begin s := \"begin\" end"

/-- The document of the string. -/
def keywordDocument : DocumentAnalysis :=
  analyseText depthLimit "file:///tmp/sample.rgg" keywordString

/-- The tokens of the string. -/
def keywordTokens : List Token :=
  [⟨.beginKeyword, "begin", ⟨1, 1⟩⟩, ⟨.identifier, "s", ⟨1, 7⟩⟩, ⟨.colonEqual, ":=", ⟨1, 9⟩⟩,
    ⟨.stringLiteral, "begin", ⟨1, 12⟩⟩, ⟨.endKeyword, "end", ⟨1, 20⟩⟩, ⟨.endOfFile, "", ⟨1, 23⟩⟩]

theorem hover_follows_class_keywordString :
    tokenize keywordString = .ok keywordTokens ∧
      analyseDocument depthLimit "file:///tmp/sample.rgg" keywordString = .ok keywordDocument ∧
      HoverByClass keywordTokens keywordDocument := by
  have lexed : tokenize keywordString = .ok keywordTokens := by decide +kernel
  have address : uriPath "file:///tmp/sample.rgg" = .ok "/tmp/sample.rgg" := by decide +kernel
  have analysed : analyseDocument depthLimit "file:///tmp/sample.rgg" keywordString =
      .ok keywordDocument :=
    analyseDocument_of_uriPath address
  exact ⟨lexed, analysed, hover_follows_class lexed analysed⟩

/-- Inside a string constant the help of a keyword is shown. -/
theorem constant_shows_keyword_help :
    tokenize keywordString = .ok keywordTokens ∧
      ⟨.stringLiteral, "begin", ⟨1, 12⟩⟩ ∈ keywordTokens ∧
      (⟨.stringLiteral, "begin", ⟨1, 12⟩⟩ : Token).StandsAt ⟨0, 12⟩ ∧
      hover? keywordDocument ⟨0, 12⟩ =
        some "**\x60begin\x60**: Opens the program body: \x60begin <statements> end\x60." :=
  ⟨by decide +kernel, by decide +kernel, ⟨1, by decide, rfl⟩, by decide +kernel⟩

end Editor

end BlockLang
