import BlockLang.Editor.Session
import Mathlib.Data.List.Induction

/-!
# Histories of a session

What a session should know follows from the requests so far, read backwards: a URI is open if it was
opened and not closed since. The text of a document is the one that was told last through any of its
URIs; `document` says which document a URI stands for. What is known about a URI is about the text
that its document had when the URI itself was last opened, changed or saved. As long as a document
is called by one URI alone, that is the text last told through this URI.

## Main definitions

* `History.Since P Q H`: some request was as `P` says, and those after it as `Q` says
* `History.IsOpen H uri`: the URI was opened and not closed since
* `History.Told document H uri text`: the text was told last for the document of the URI
* `History.Dropped document H uri`: the text of the document was given up through another URI
* `History.Settled document H uri text`: the document had the text when its URI was last analysed
* `History.Latest H uri text`: the text was told last through the URI itself
* `History.Proper document H`: changes and saves come only while a document is open

## Main results

* `History.since_concat`: what one more request makes of it
* `History.IsOpen.exists_told`: what is open has a text, unless it was given up
* `History.Proper.isOpen_iff`: what is open was analysed, and the other way round
* `History.Settled.latest`: a document with one URI has the text that was told through it
-/

namespace BlockLang.Editor

variable (document : String → String)

namespace Request

/-- The URI that a request is about. -/
def uri : Request → String
  | opened uri _ | changed uri _ | saved uri | closed uri | symbols uri | hover uri _ => uri

/-- The request tells a text of the document that a URI stands for. -/
def Tells (uri text : String) : Request → Prop
  | opened u t | changed u t => document u = document uri ∧ t = text
  | _ => False

/-- The request tells or drops the text of the document that a URI stands for. -/
def Moves (uri : String) : Request → Prop
  | opened u _ | changed u _ | closed u => document u = document uri
  | _ => False

/-- The request drops the text of the document that a URI stands for, through another URI of it. -/
def Drops (uri : String) : Request → Prop
  | closed u => u ≠ uri ∧ document u = document uri
  | _ => False

variable {document} in
theorem Tells.moves {uri text : String} {r : Request} (h : r.Tells document uri text) :
    r.Moves document uri := by
  cases r with
  | opened | changed => exact h.1
  | saved | closed | symbols | hover => exact absurd h id

/-- The request has the document of a URI analysed for this URI. -/
def Validates (uri : String) : Request → Prop
  | opened u _ | changed u _ | saved u => u = uri
  | _ => False

end Request

/-- The requests so far, in turn. -/
abbrev History := List Request

namespace History

variable {P : History → Request → Prop} {Q : Request → Prop} {H : History} {r : Request}
  {uri text : String}

/-- Some request was as `P` says of it and of those before it, and those after it as `Q` says. -/
def Since (P : History → Request → Prop) (Q : Request → Prop) (H : History) : Prop :=
  ∃ before r after, H = before ++ r :: after ∧ P before r ∧ ∀ later ∈ after, Q later

theorem not_since_nil : ¬ Since P Q [] := by
  rintro ⟨before, r, after, h, -, -⟩
  simp at h

/-- One more request begins a new stretch, or goes on with one. -/
theorem since_concat : Since P Q (H ++ [r]) ↔ P H r ∨ Since P Q H ∧ Q r := by
  constructor
  · rintro ⟨before, first, after, split, here, later⟩
    rcases List.eq_nil_or_concat after with rfl | ⟨after, last, rfl⟩
    · obtain ⟨rfl, same⟩ := List.append_inj' split rfl
      cases same
      exact .inl here
    · rw [List.concat_eq_append, ← List.cons_append, ← List.append_assoc] at split
      obtain ⟨rfl, same⟩ := List.append_inj' split rfl
      cases same
      simp only [List.concat_eq_append, List.mem_append, List.mem_singleton] at later
      exact .inr ⟨⟨before, first, after, rfl, here, fun r hr => later r (.inl hr)⟩,
        later r (.inr rfl)⟩
  · rintro (here | ⟨⟨before, first, after, rfl, here, later⟩, goes⟩)
    · exact ⟨H, r, [], rfl, here, by simp⟩
    · refine ⟨before, first, after ++ [r], by simp, here, fun last hl => ?_⟩
      rcases List.mem_append.mp hl with hl | hl
      · exact later last hl
      · exact List.mem_singleton.mp hl ▸ goes

theorem Since.append (h : Since P Q H) {after : History} (goes : ∀ r ∈ after, Q r) :
    Since P Q (H ++ after) := by
  obtain ⟨before, r, later, rfl, here, went⟩ := h
  exact ⟨before, r, later ++ after, by simp, here, fun s hs =>
    (List.mem_append.mp hs).elim (went s) (goes s)⟩

/-- The URI was opened and not closed since. -/
def IsOpen (H : History) (uri : String) : Prop :=
  Since (fun _ r => ∃ text, r = .opened uri text) (· ≠ .closed uri) H

/-- The text was told last for the document of the URI, which was not closed since. -/
def Told (H : History) (uri text : String) : Prop :=
  Since (fun _ r => r.Tells document uri text) (¬ Request.Moves document uri ·) H

/-- The text of the document was dropped through another of its URIs, and none was told since. -/
def Dropped (H : History) (uri : String) : Prop :=
  Since (fun _ r => r.Drops document uri) (fun r => ∀ text, ¬ r.Tells document uri text) H

/-- The URI was last opened, changed or saved when its document had the text, and not closed
since. -/
def Settled (H : History) (uri text : String) : Prop :=
  Since (fun before r => r.Validates uri ∧ Told document (before ++ [r]) uri text)
    (fun r => ¬ r.Validates uri ∧ r ≠ .closed uri) H

/-- The text was told last through the URI itself. -/
def Latest (H : History) (uri text : String) : Prop :=
  Since (fun _ r => r = .opened uri text ∨ r = .changed uri text)
    (fun r => ∀ other, r ≠ .opened uri other ∧ r ≠ .changed uri other) H

/-- The request may come after those before it. A document is opened under a URI that is one. It is
changed and saved only while its URI is open; where it has other URIs, not after its text was
dropped through one of them. -/
def Admits (H : History) : Request → Prop
  | .opened uri _ => ∃ path, uriPath uri = .ok path
  | .changed uri _ | .saved uri => H.IsOpen uri ∧ ¬ H.Dropped document uri
  | .closed _ | .symbols _ | .hover _ _ => True

/-- Every request came when it might. -/
inductive Proper : History → Prop
  | nil : Proper []
  | concat {H : History} {r : Request} (proper : Proper H) (admits : H.Admits document r) :
    Proper (H ++ [r])

variable {document}

/-- What is told is the text of the document from then on. -/
theorem told_concat : Told document (H ++ [r]) uri text ↔
    r.Tells document uri text ∨ H.Told document uri text ∧ ¬ r.Moves document uri := since_concat

theorem dropped_concat : Dropped document (H ++ [r]) uri ↔
    r.Drops document uri ∨ H.Dropped document uri ∧ ∀ text, ¬ r.Tells document uri text :=
  since_concat

theorem isOpen_concat : IsOpen (H ++ [r]) uri ↔
    (∃ text, r = .opened uri text) ∨ IsOpen H uri ∧ r ≠ .closed uri := since_concat

theorem settled_concat : Settled document (H ++ [r]) uri text ↔
    (r.Validates uri ∧ Told document (H ++ [r]) uri text) ∨
      H.Settled document uri text ∧ ¬ r.Validates uri ∧ r ≠ .closed uri := since_concat

/-! ## Open documents -/

/-- A document has a text as long as its URI is open, unless the text was dropped through another
one. -/
theorem IsOpen.exists_told (isOpen : H.IsOpen uri) (undropped : ¬ H.Dropped document uri) :
    ∃ text, H.Told document uri text := by
  induction H using List.reverseRecOn with
  | nil => exact absurd isOpen not_since_nil
  | append_singleton H r ih =>
    by_cases tells : ∃ text, r.Tells document uri text
    · obtain ⟨text, tells⟩ := tells
      exact ⟨text, told_concat.mpr (.inl tells)⟩
    · -- No text is told, so the URI was open before, and its text was not dropped then.
      rw [not_exists] at tells
      rcases isOpen_concat.mp isOpen with ⟨text, rfl⟩ | ⟨isOpen, stays⟩
      · exact absurd ⟨rfl, rfl⟩ (tells text)
      · obtain ⟨text, told⟩ := ih isOpen fun dropped =>
          undropped (dropped_concat.mpr (.inr ⟨dropped, tells⟩))
        refine ⟨text, told_concat.mpr (.inr ⟨told, fun moves => ?_⟩)⟩
        cases r with
        | opened u t | changed u t => exact tells t ⟨moves, rfl⟩
        | saved | symbols | hover => exact moves
        | closed u =>
          have other : u ≠ uri := fun same => stays (congrArg _ same)
          exact undropped (dropped_concat.mpr (.inl ⟨other, moves⟩))

/-- A text is dropped only through another URI of its document. -/
theorem Dropped.exists_other (h : H.Dropped document uri) :
    ∃ other, other ≠ uri ∧ document other = document uri ∧ .closed other ∈ H := by
  obtain ⟨before, r, after, rfl, drops, -⟩ := h
  cases r with
  | closed u => exact ⟨u, drops.1, drops.2, by simp⟩
  | opened | changed | saved | symbols | hover => exact absurd drops id

/-- Where each URI has a document of its own, no text is dropped through another one. -/
theorem not_dropped (apart : Function.Injective document) : ¬ H.Dropped document uri := by
  intro dropped
  obtain ⟨other, distinct, same, -⟩ := dropped.exists_other
  exact distinct (apart same)

/-- What is open has a URI that is one. -/
theorem Proper.exists_path (proper : H.Proper document) (h : H.IsOpen uri) :
    ∃ path, uriPath uri = .ok path := by
  induction proper with
  | nil => exact absurd h not_since_nil
  | concat _ admits ih =>
    rcases isOpen_concat.mp h with ⟨text, rfl⟩ | ⟨h, -⟩
    · exact admits
    · exact ih h

/-- What is analysed has a text that was told. -/
theorem Admits.exists_told (admits : H.Admits document r) (validates : r.Validates uri) :
    ∃ text, Told document (H ++ [r]) uri text := by
  cases r with
  | opened u t | changed u t =>
    cases validates
    exact ⟨t, told_concat.mpr (.inl ⟨rfl, rfl⟩)⟩
  | saved u =>
    cases validates
    obtain ⟨text, told⟩ := admits.1.exists_told admits.2
    exact ⟨text, told_concat.mpr (.inr ⟨told, id⟩)⟩
  | closed | symbols | hover => exact absurd validates id

/-- What is analysed is open from then on. -/
theorem Admits.isOpen (admits : H.Admits document r) (validates : r.Validates uri) :
    IsOpen (H ++ [r]) uri := by
  cases r with
  | opened u t =>
    cases validates
    exact isOpen_concat.mpr (.inl ⟨t, rfl⟩)
  | changed u t =>
    cases validates
    exact isOpen_concat.mpr (.inr ⟨admits.1, nofun⟩)
  | saved u =>
    cases validates
    exact isOpen_concat.mpr (.inr ⟨admits.1, nofun⟩)
  | closed | symbols | hover => exact absurd validates id

/-- A URI is open exactly if it was analysed and not closed since. -/
theorem Proper.isOpen_iff (proper : H.Proper document) :
    H.IsOpen uri ↔ ∃ text, H.Settled document uri text := by
  induction proper with
  | nil => simp [IsOpen, Settled, not_since_nil]
  | @concat H r proper admits ih =>
    by_cases validates : r.Validates uri
    · obtain ⟨text, told⟩ := Admits.exists_told admits validates
      exact ⟨fun _ => ⟨text, settled_concat.mpr (.inl ⟨validates, told⟩)⟩,
        fun _ => Admits.isOpen admits validates⟩
    · have unopened : ¬ ∃ text, r = .opened uri text := by
        rintro ⟨text, rfl⟩
        exact validates rfl
      simp only [isOpen_concat, settled_concat, unopened, validates, false_or, false_and,
        not_false_eq_true, true_and, ih, exists_and_right]

/-! ## Documents with one URI -/

/-- The text of a document with one URI is the one told through this URI. -/
theorem Told.latest (told : H.Told document uri text)
    (alone : ∀ r ∈ H, document r.uri = document uri → r.uri = uri) :
    H.Latest uri text := by
  obtain ⟨before, r, after, rfl, tells, later⟩ := told
  have mine : document r.uri = document uri → r.uri = uri := alone r (by simp)
  refine ⟨before, r, after, rfl, ?_, fun s hs other => ⟨?_, ?_⟩⟩
  · cases r with
    | opened u t => exact .inl (by rw [← mine tells.1, ← tells.2]; rfl)
    | changed u t => exact .inr (by rw [← mine tells.1, ← tells.2]; rfl)
    | saved | closed | symbols | hover => exact absurd tells id
  · rintro rfl
    exact later _ hs rfl
  · rintro rfl
    exact later _ hs rfl

/-- What is known of a document with one URI is about the text told through this URI. -/
theorem Settled.latest (settled : H.Settled document uri text)
    (alone : ∀ r ∈ H, document r.uri = document uri → r.uri = uri) :
    H.Latest uri text := by
  obtain ⟨before, r, after, rfl, ⟨-, told⟩, later⟩ := settled
  rw [List.append_cons] at alone ⊢
  refine (told.latest fun s hs => alone s (List.mem_append_left after hs)).append
    fun s hs other => ⟨?_, ?_⟩
  · rintro rfl
    exact (later _ hs).1 rfl
  · rintro rfl
    exact (later _ hs).1 rfl

end History

end BlockLang.Editor
