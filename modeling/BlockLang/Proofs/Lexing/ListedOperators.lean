import BlockLang.Proofs.Lexing.Tiling

/-!
# Listed operators

A trie can be built of some operators of the language only. Wherever the operator scanner stands
then, it takes the longest of the listed spellings that begins what is left of the source, whatever
the order of the list, and it does not move if there is none. A list that holds a spelling which is
no operator of the language is refused.

## Main definitions

* `Cursor.readOperator operators cursor`: the operator that is written at the cursor
* `LongestListed spellings cs spelling`: the longest spelling of a list that begins a text
* `ScansListed spellings trie cursor`: what the operator scanner does with the trie of a list

## Main results

* `Cursor.deliver_of_isSign`: the lexer scans for an operator where nothing else begins
* `OperatorTrie.insertAll_eq_error_iff`: a list is refused for its first unknown spelling
* `OperatorTrie.symbol?_build`: a trie knows the spellings that it was built of
* `OperatorTrie.longest?_congr`: a scan depends on what the trie knows alone
* `scans_longest_listed`: the longest listed spelling is taken
-/

namespace BlockLang

variable {spellings others : List String} {trie built : OperatorTrie} {e : UnknownOperator}
  {t : TokenType} {cs run : List Char} {n : Nat} {cursor after : Cursor} {token : Token}

/-! ## The operator scanner -/

/-- The operator that is written at the cursor, and the cursor behind it. If none is, the character
at the cursor is unexpected; a null character stands for it at the end of the source. -/
def Cursor.readOperator (operators : OperatorTrie) (cursor : Cursor) : Delivery × Cursor :=
  match operators.longest? cursor.rest with
  | some (t, n) =>
    (.ok ⟨t, String.ofList (cursor.rest.take n), cursor.position⟩,
      cursor.pass (cursor.rest.take n))
  | none =>
    (.error ⟨(Obstacle.unexpected (cursor.rest.headD '\x00')).message, cursor.position⟩, cursor)

/-- Where neither a constant nor a word begins, the lexer scans for an operator. -/
theorem Cursor.deliver_of_isSign {c : Char} (text : cursor.rest = c :: cs) (sign : IsSign c)
    (operators : OperatorTrie) : cursor.deliver operators = cursor.readOperator operators := by
  rw [deliver, readOperator, text]
  simp only [scan, sign.quote, sign.digit, sign.word, if_false, Bool.false_eq_true]
  cases operators.longest? (c :: cs) with
  | none => simp
  | some found => rfl

/-! ## Tries of lists -/

namespace OperatorTrie

/-- A list is refused for the first of its spellings that is no operator. -/
theorem insertAll_eq_error_iff :
    insertAll spellings trie = .error e ↔
      spellings.find? (fun s => (operators.find? s).isNone) = some e.spelling := by
  induction spellings generalizing trie with
  | nil => simp [insertAll]
  | cons s rest ih =>
    rw [insertAll]
    cases known : operators.find? s with
    | some t => rw [List.find?_cons_of_neg (by simp [known]), ih]
    | none =>
      rw [List.find?_cons_of_pos (by simp [known])]
      obtain ⟨spelling⟩ := e
      simp

theorem exists_insertAll_eq_error_iff :
    (∃ e, insertAll spellings trie = .error e) ↔ ∃ s ∈ spellings, operators.find? s = none := by
  simp only [insertAll_eq_error_iff]
  constructor
  · rintro ⟨e, found⟩
    exact ⟨e.spelling, List.mem_of_find?_eq_some found, by simpa using List.find?_some found⟩
  · rintro ⟨s, hs, unknown⟩
    cases found : spellings.find? fun s => (operators.find? s).isNone with
    | some s => exact ⟨⟨s⟩, rfl⟩
    | none => exact absurd (List.find?_eq_none.mp found s hs) (by simp [unknown])

theorem exists_build (known : ∀ s ∈ spellings, operators.find? s ≠ none) :
    ∃ trie, build spellings = .ok trie := by
  cases result : build spellings with
  | ok trie => exact ⟨trie, rfl⟩
  | error e =>
    obtain ⟨s, hs, unknown⟩ := exists_insertAll_eq_error_iff.mp ⟨e, result⟩
    exact absurd unknown (known s hs)

/-- A trie knows the spellings that were inserted, and what it knew before. -/
theorem symbol?_insertAll (h : insertAll spellings trie = .ok built) (run : List Char) :
    built.symbol? run = if String.ofList run ∈ spellings then operators.find? (String.ofList run)
      else trie.symbol? run := by
  induction spellings generalizing trie with
  | nil =>
    obtain rfl := Except.ok.inj h
    simp
  | cons s rest ih =>
    rw [insertAll] at h
    cases known : operators.find? s with
    | none => simp [known] at h
    | some t =>
      rw [known] at h
      rw [ih h, symbol?_insert]
      by_cases same : s = String.ofList run
      · have inserted : run = s.toList := by simp [same]
        simp [known, inserted]
      · have other : run ≠ s.toList := fun hr => same (by simp [hr])
        simp [other, Ne.symm same]

/-- A trie knows the spellings that it was built of. -/
theorem symbol?_build (h : build spellings = .ok trie) (run : List Char) :
    trie.symbol? run =
      if String.ofList run ∈ spellings then operators.find? (String.ofList run) else none := by
  rw [symbol?_insertAll h, symbol?_empty]

theorem symbol?_build_eq_some_iff (h : build spellings = .ok trie) :
    trie.symbol? run = some t ↔
      String.ofList run ∈ spellings ∧ operators.find? (String.ofList run) = some t := by
  rw [symbol?_build h]
  split
  · next listed => rw [and_iff_right listed]
  · next absent => exact iff_of_false nofun fun both => absent both.1

theorem symbol?_build_eq_none_iff (h : build spellings = .ok trie)
    (known : ∀ s ∈ spellings, operators.find? s ≠ none) :
    trie.symbol? run = none ↔ String.ofList run ∉ spellings := by
  rw [symbol?_build h]
  split
  · next listed => exact iff_of_false (known _ listed) (not_not_intro listed)
  · next absent => exact iff_of_true rfl absent

/-- A scan depends on what the trie knows alone. -/
theorem longest?_congr {trie' : OperatorTrie} (h : ∀ run, trie'.symbol? run = trie.symbol? run)
    (cs : List Char) : trie'.longest? cs = trie.longest? cs := by
  have same (t : TokenType) (n : Nat) : trie'.IsLongest cs t n ↔ trie.IsLongest cs t n := by
    constructor <;> rintro ⟨length_le, spells, longest⟩
    · exact ⟨length_le, h _ ▸ spells, fun run hr hn => h run ▸ longest run hr hn⟩
    · exact ⟨length_le, (h _).symm ▸ spells, fun run hr hn => (h run).symm ▸ longest run hr hn⟩
  refine Option.ext fun r => ?_
  rw [longest?_eq_some_iff, longest?_eq_some_iff, same]

end OperatorTrie

/-! ## The longest listed spelling -/

/-- The spelling is in the list and begins the text, and no longer one does. -/
structure LongestListed (spellings : List String) (cs : List Char) (spelling : String) : Prop where
  listed : spelling ∈ spellings
  begins : spelling.toList <+: cs
  longest : ∀ other ∈ spellings, other.toList <+: cs → other.length ≤ spelling.length

section

variable (h : OperatorTrie.build spellings = .ok trie)
  (known : ∀ s ∈ spellings, operators.find? s ≠ none)

include h known

/-- The longest match in a text is the longest listed spelling that begins it. -/
theorem isLongest_iff_longestListed {spelling : String} (begins : spelling.toList <+: cs) :
    trie.IsLongest cs t spelling.length ↔
      LongestListed spellings cs spelling ∧ operators.find? spelling = some t := by
  have taken : String.ofList (cs.take spelling.length) = spelling := by
    rw [← String.length_toList, ← List.prefix_iff_eq_take.mp begins, String.ofList_toList]
  constructor
  · rintro ⟨-, spells, longest⟩
    rw [OperatorTrie.symbol?_build_eq_some_iff h, taken] at spells
    refine ⟨⟨spells.1, begins, fun other listed hp => ?_⟩, spells.2⟩
    by_contra longer
    have absent := longest other.toList hp (by rw [String.length_toList]; omega)
    rw [OperatorTrie.symbol?_build_eq_none_iff h known, String.ofList_toList] at absent
    exact absent listed
  · rintro ⟨⟨listed, -, longest⟩, spells⟩
    refine ⟨String.length_toList ▸ begins.length_le, ?_, fun run hr longer => ?_⟩
    · rw [OperatorTrie.symbol?_build_eq_some_iff h, taken]
      exact ⟨listed, spells⟩
    · rw [OperatorTrie.symbol?_build_eq_none_iff h known]
      intro other
      have le := longest _ other (by simpa using hr)
      rw [String.length_ofList] at le
      omega

/-- There is no match in a text just when no listed spelling begins it. -/
theorem longest?_eq_none_iff_listed :
    trie.longest? cs = none ↔ ∀ s ∈ spellings, ¬s.toList <+: cs := by
  simp only [OperatorTrie.longest?_eq_none_iff, OperatorTrie.symbol?_build_eq_none_iff h known]
  constructor
  · exact fun absent s hs hp => absent s.toList hp (by simpa using hs)
  · exact fun absent run hr listed => absent _ listed (by simpa using hr)

/-- The scanner takes the longest listed spelling. -/
theorem readOperator_eq_ok_iff :
    cursor.readOperator trie = (.ok token, after) ↔
      LongestListed spellings cursor.rest token.value ∧
      operators.find? token.value = some token.type ∧ token.position = cursor.position ∧
      after = cursor.pass token.value.toList := by
  constructor
  · intro read
    rw [Cursor.readOperator] at read
    split at read
    · next t n found =>
      obtain ⟨taken, rfl⟩ := Prod.mk.inj read
      obtain rfl := Except.ok.inj taken
      have isLongest := OperatorTrie.longest?_eq_some_iff.mp found
      have length : (String.ofList (cursor.rest.take n)).length = n := by
        rw [String.length_ofList, List.length_take, Nat.min_eq_left isLongest.length_le]
      have begins : (String.ofList (cursor.rest.take n)).toList <+: cursor.rest := by
        rw [String.toList_ofList]
        exact List.take_prefix n _
      rw [← length] at isLongest
      obtain ⟨longest, spelled⟩ := (isLongest_iff_longestListed h known begins).mp isLongest
      exact ⟨longest, spelled, rfl, by rw [String.toList_ofList]⟩
    · cases read
  · rintro ⟨longest, spelled, placed, rfl⟩
    have found := OperatorTrie.longest?_eq_some_iff.mpr
      ((isLongest_iff_longestListed h known longest.begins).mpr ⟨longest, spelled⟩)
    have taken : cursor.rest.take token.value.length = token.value.toList := by
      rw [← String.length_toList, ← List.prefix_iff_eq_take.mp longest.begins]
    obtain ⟨type, value, position⟩ := token
    obtain rfl : position = cursor.position := placed
    rw [Cursor.readOperator, found]
    simp only [taken, String.ofList_toList]

/-- The scanner stays where no listed spelling begins. -/
theorem readOperator_eq_error_iff {e : LexicalError} :
    cursor.readOperator trie = (.error e, after) ↔
      (∀ s ∈ spellings, ¬s.toList <+: cursor.rest) ∧
      e = ⟨(Obstacle.unexpected (cursor.rest.headD '\x00')).message, cursor.position⟩ ∧
      after = cursor := by
  rw [← longest?_eq_none_iff_listed h known, Cursor.readOperator]
  cases trie.longest? cursor.rest with
  | none => simp [eq_comm]
  | some => simp

end

/-! ## Scanning for listed operators -/

/-- No operator of the language spans two lines. -/
theorem oneLine_operator {spelling : String} (h : operators.find? spelling = some t) :
    '\n' ∉ spelling.toList := by
  have all : ∀ entry ∈ operators.entries, '\n' ∉ entry.1.toList := by decide
  exact all _ (Dictionary.mem_of_findEntry_eq_some h)

/-- With the trie of a list, the scanner takes the longest spelling of the list that begins what is
left of the source, as the operator of the language that it spells, and passes it. If there is none,
it stays and gives an error. -/
structure ScansListed (spellings : List String) (trie : OperatorTrie) (cursor : Cursor) : Prop where
  takes : ∀ token after, cursor.readOperator trie = (.ok token, after) ↔
    LongestListed spellings cursor.rest token.value ∧
    operators.find? token.value = some token.type ∧ token.position = cursor.position ∧
    after = ⟨cursor.rest.drop token.value.length, cursor.offset + token.value.length,
      ⟨cursor.position.line, cursor.position.col + token.value.length⟩⟩
  refuses : ∀ e after, cursor.readOperator trie = (.error e, after) ↔
    (∀ s ∈ spellings, ¬s.toList <+: cursor.rest) ∧
    e = ⟨(Obstacle.unexpected (cursor.rest.headD '\x00')).message, cursor.position⟩ ∧
    after = cursor
  delivered : ∀ c cs, cursor.rest = c :: cs → IsSign c →
    cursor.deliver trie = cursor.readOperator trie

theorem scansListed_of_build (h : OperatorTrie.build spellings = .ok trie)
    (known : ∀ s ∈ spellings, operators.find? s ≠ none) (cursor : Cursor) :
    ScansListed spellings trie cursor where
  takes token after := by
    rw [readOperator_eq_ok_iff h known]
    refine and_congr_right fun _ => and_congr_right fun spelled => and_congr_right fun _ => ?_
    rw [Cursor.pass, Position.after_of_oneLine (oneLine_operator spelled), String.length_toList]
  refuses e after := readOperator_eq_error_iff h known
  delivered c cs text sign := Cursor.deliver_of_isSign text sign trie

/-- A list of spellings is refused just when one of them is no operator of the language, for the
first such one. With the trie of any other list, wherever the scanner stands in a source, it takes
the longest spelling of the list that begins the rest, and it stays and gives an error just when
there is none. Neither the order of the list nor a spelling that comes twice makes a difference. -/
theorem scans_longest_listed (spellings : List String) :
    (∀ e, OperatorTrie.build spellings = .error e ↔
      spellings.find? (fun s => (operators.find? s).isNone) = some e.spelling) ∧
    ((∃ e, OperatorTrie.build spellings = .error e) ↔
      ∃ s ∈ spellings, operators.find? s = none) ∧
    ((∀ s ∈ spellings, operators.find? s ≠ none) → ∃ trie, OperatorTrie.build spellings = .ok trie ∧
      (∀ cursor, ScansListed spellings trie cursor) ∧
      ∀ others, (∀ s, s ∈ others ↔ s ∈ spellings) → ∃ trie', OperatorTrie.build others = .ok trie' ∧
        ∀ cursor : Cursor, cursor.readOperator trie' = cursor.readOperator trie) := by
  refine ⟨fun e => OperatorTrie.insertAll_eq_error_iff,
    OperatorTrie.exists_insertAll_eq_error_iff, fun known => ?_⟩
  obtain ⟨trie, built⟩ := OperatorTrie.exists_build known
  refine ⟨trie, built, scansListed_of_build built known, fun others same => ?_⟩
  obtain ⟨trie', built'⟩ := OperatorTrie.exists_build fun s hs => known s ((same s).mp hs)
  refine ⟨trie', built', fun cursor => ?_⟩
  -- Both tries know the same spellings.
  have scan : trie'.longest? cursor.rest = trie.longest? cursor.rest :=
    OperatorTrie.longest?_congr (fun run => by
      simp [OperatorTrie.symbol?_build built, OperatorTrie.symbol?_build built', same]) cursor.rest
  rw [Cursor.readOperator, Cursor.readOperator, scan]

/-- Operators of which two begin with others, one of them twice. -/
def comparing : List String := ["<", "/=", "<=", "/", "<"]

theorem scans_longest_listed_comparing :
    (∀ s ∈ comparing, operators.find? s ≠ none) ∧
      ∃ trie, OperatorTrie.build comparing = .ok trie ∧
        (⟨"<==".toList, 1, ⟨1, 2⟩⟩ : Cursor).readOperator trie =
          (.ok ⟨.lessEqual, "<=", ⟨1, 2⟩⟩, ⟨['='], 3, ⟨1, 4⟩⟩) ∧
        (∀ s, s ∈ ["/=", "/", "<=", "<"] ↔ s ∈ comparing) ∧
        ∃ trie', OperatorTrie.build ["/=", "/", "<=", "<"] = .ok trie' ∧
          ∀ cursor : Cursor, cursor.readOperator trie' = cursor.readOperator trie := by
  have known : ∀ s ∈ comparing, operators.find? s ≠ none := by decide
  have same : ∀ s, s ∈ ["/=", "/", "<=", "<"] ↔ s ∈ comparing := by
    intro s
    simp only [comparing, List.mem_cons, List.not_mem_nil, or_false]
    tauto
  obtain ⟨trie, built, scans, ordered⟩ := (scans_longest_listed comparing).2.2 known
  refine ⟨known, trie, built, ((scans _).takes _ _).mpr ?_, same, ordered _ same⟩
  exact ⟨⟨by decide, by decide, by decide⟩, by decide, rfl, by decide +kernel⟩

end BlockLang
