import BlockLang.Proofs.Editor.Histories

/-!
# Sessions and their histories

A session works with any workspace that keeps what it is told. After each request the workspace has
the text that was told last for each document, and the session knows of each open URI what the
analysis of its text says. So an answer depends on the text of the document alone, however the
requests about other documents come in between. The text is that of the document: where the
workspace takes several URIs for one document, a URI that is saved is analysed with a text that may
have been told through another one.

## Main definitions

* `Recalls limit document kept H s`: the workspace keeps and the session knows what the history says
* `Replies limit document H r before handled`: what a request after a history leads to
* `sessionAfter s steps`: the session that some steps lead to

## Main results

* `Recalls.handle`: one more request
* `session_follows_history`: every step of a session
* `unparsed_and_shared_uris`: a URI may be refused, and may be analysed with a text that was not
  told through it
-/

namespace BlockLang.Editor

open History

variable {σ ε : Type} {W : Workspace σ ε} {document : String → String}
  {kept : σ → String → Option String} {limit : Nat} {H : History} {r : Request} {s t : Session σ}
  {handled : Handled σ} {uri text : String}

/-- The workspace keeps the text that was told last for each document, and the session knows of each
open URI what the analysis of the text that it was last analysed with says. -/
structure Recalls (limit : Nat) (document : String → String) (kept : σ → String → Option String)
    (H : History) (s : Session σ) : Prop where
  texts : ∀ uri text, kept s.documents (document uri) = some text ↔ H.Told document uri text
  known : ∀ uri analysis, s.known.find? uri = some analysis ↔
    ∃ text, H.Settled document uri text ∧ analysis = analyseText limit uri text
  distinct : s.known.keys.Nodup

theorem recalls_empty (limit : Nat) (keeps : W.Keeps document kept) :
    Recalls limit document kept [] (.empty W) where
  texts uri text := by simp [Session.empty, History.Told, not_since_nil, keeps.empty]
  known uri analysis := by simp [Session.empty, History.Settled, not_since_nil]
  distinct := by simp [Session.empty, Dictionary.empty, Dictionary.keys]

/-- Something is known of the URIs that are open, namely what the analysis of their texts says. -/
structure Knows (limit : Nat) (document : String → String) (H : History) (s : Session σ) :
    Prop where
  distinct : s.known.keys.Nodup
  uris : ∀ uri, uri ∈ s.known.keys ↔ H.IsOpen uri
  analyses : ∀ uri analysis, s.known.find? uri = some analysis ↔
    ∃ text, H.Settled document uri text ∧ analysis = analyseText limit uri text

theorem Recalls.knows (h : Recalls limit document kept H s) (proper : H.Proper document) :
    Knows limit document H s where
  distinct := h.distinct
  uris uri := by
    simp only [Dictionary.mem_keys_iff, proper.isOpen_iff, h.known]
    constructor
    · rintro ⟨_, text, settled, _⟩
      exact ⟨text, settled⟩
    · rintro ⟨text, settled⟩
      exact ⟨_, text, settled, rfl⟩
  analyses := h.known

/-- Of an open URI the analysis of its text is known. -/
theorem Recalls.find?_eq_some (h : Recalls limit document kept H s)
    (settled : H.Settled document uri text) :
    s.known.find? uri = some (analyseText limit uri text) :=
  (h.known uri _).mpr ⟨text, settled, rfl⟩

/-- Nothing is known of a URI that is not open. -/
theorem Recalls.find?_eq_none (h : Recalls limit document kept H s) (proper : H.Proper document)
    (closed : ¬ H.IsOpen uri) : s.known.find? uri = none := by
  refine Option.eq_none_iff_forall_ne_some.mpr fun analysis found => ?_
  obtain ⟨text, settled, -⟩ := (h.known uri analysis).mp found
  exact closed (proper.isOpen_iff.mpr ⟨text, settled⟩)

/-- What a request after a history leads to, from the session before it. For a URI that is analysed
its diagnostics are published, and for one that is closed none. A question changes and publishes
nothing, and is answered from the text of the document. -/
structure Replies (limit : Nat) (document : String → String) (H : History) (r : Request)
    (before : Session σ) (handled : Handled σ) : Prop where
  validated : ∀ uri, r.Validates uri → handled.answer = .nothing ∧
    ∃ text, (H ++ [r]).Settled document uri text ∧
      handled.published = [⟨uri, (analyseText limit uri text).diagnostics⟩]
  closed : ∀ uri, r = .closed uri → handled.answer = .nothing ∧ handled.published = [⟨uri, []⟩]
  symbols : ∀ uri, r = .symbols uri → handled.session = before ∧ handled.published = [] ∧
    (∀ text, H.Settled document uri text →
      handled.answer = .symbols (outline (analyseText limit uri text))) ∧
    (¬ H.IsOpen uri → handled.answer = .symbols [])
  hover : ∀ uri position, r = .hover uri position →
    handled.session = before ∧ handled.published = [] ∧
    (∀ text, H.Settled document uri text →
      handled.answer = .hover (hover? (analyseText limit uri text) position)) ∧
    (¬ H.IsOpen uri → handled.answer = .hover none)

/-! ## Texts -/

/-- A request that moves no text leaves the texts as they were told. -/
theorem Recalls.texts_still (h : Recalls limit document kept H s)
    (still : ∀ u, ¬ r.Moves document u) (u other : String) :
    kept s.documents (document u) = some other ↔ (H ++ [r]).Told document u other := by
  have silent : ¬ r.Tells document u other := fun tells => still u tells.moves
  rw [told_concat, h.texts]
  simp only [silent, still u, false_or, not_false_eq_true, and_true]

/-- A text that is told is the text of its document from then on. -/
theorem Recalls.texts_tell (h : Recalls limit document kept H s) {documents : σ}
    (now : ∀ d, kept documents d = if d = document uri then some text else kept s.documents d)
    (tells : ∀ u other, r.Tells document u other ↔ document uri = document u ∧ text = other)
    (moves : ∀ u, r.Moves document u ↔ document uri = document u) (u other : String) :
    kept documents (document u) = some other ↔ (H ++ [r]).Told document u other := by
  rw [told_concat, tells, moves, now, ← h.texts]
  by_cases same : document uri = document u
  · simp [same]
  · simp [same, Ne.symm same]

/-! ## Requests -/

/-- What a request that has a URI analysed leads to. -/
theorem Recalls.validate (h : Recalls limit document kept H s) {path : String}
    (place : uriPath uri = .ok path) (known : t.known = s.known)
    (texts : ∀ u other,
      kept t.documents (document u) = some other ↔ (H ++ [r]).Told document u other)
    (told : (H ++ [r]).Told document uri text) (validates : ∀ u, r.Validates u ↔ uri = u)
    (stays : ∀ u, r ≠ .closed u) :
    ∃ handled, (t.validate limit uri text : Except (RequestError ε) _) = .ok handled ∧
      Recalls limit document kept (H ++ [r]) handled.session ∧
      Replies limit document H r s handled := by
  have wanted : r.Validates uri := (validates uri).mpr rfl
  refine ⟨⟨{ t with known := t.known.insert uri (analyseText limit uri text) }, .nothing,
    [⟨uri, (analyseText limit uri text).diagnostics⟩]⟩, ?_, ⟨texts, fun u analysis => ?_, ?_⟩, ?_⟩
  · simp only [Session.validate, analyseDocument, place]
    rfl
  · rw [Dictionary.find?_insert, known]
    simp only [settled_concat, validates, stays, ne_eq, not_false_eq_true, and_true]
    by_cases same : uri = u
    · subst same
      -- The text of the document is the one that was analysed.
      have unique (other : String) : (H ++ [r]).Told document uri other ↔ text = other := by
        rw [← texts, (texts uri text).mpr told, Option.some.injEq]
      simp only [if_true, true_and, not_true, and_false, or_false, unique, exists_eq_left',
        Option.some.injEq, eq_comm]
    · simp only [if_neg (Ne.symm same), same, false_and, not_false_eq_true, and_true, false_or]
      exact h.known u analysis
  · exact Dictionary.nodup_keys_insert (known ▸ h.distinct) _ _
  · refine ⟨fun u hu => ?_, fun u closes => absurd closes (stays u), fun u asks => ?_,
      fun u position asks => ?_⟩
    · obtain rfl := (validates u).mp hu
      exact ⟨rfl, text, settled_concat.mpr (.inl ⟨hu, told⟩), rfl⟩
    · exact absurd wanted (asks ▸ id)
    · exact absurd wanted (asks ▸ id)

/-- The workspace has the text of a document that was told. -/
theorem revalidate_eq (keeps : W.Keeps document kept)
    (held : kept s.documents (document uri) = some text) :
    s.revalidate limit W uri = s.validate limit uri text := by
  rw [Session.revalidate, keeps.source _ _ _ held]
  rfl

/-- What is kept and known after a URI is closed. -/
theorem Recalls.close (h : Recalls limit document kept H s) (keeps : W.Keeps document kept)
    (uri : String) : Recalls limit document kept (H ++ [.closed uri])
      ⟨W.closed s.documents uri, s.known.erase uri⟩ where
  texts u text := by
    rw [keeps.closed, told_concat, ← h.texts]
    by_cases same : document u = document uri
    · simp [Request.Tells, Request.Moves, same]
    · simp [Request.Tells, Request.Moves, same, Ne.symm same]
  known u analysis := by
    rw [Dictionary.find?_erase]
    simp only [settled_concat, Request.Validates, false_and, false_or, not_false_eq_true, true_and]
    by_cases same : u = uri
    · simp [same]
    · simp only [if_neg same, ne_eq, Request.closed.injEq, Ne.symm same, not_false_eq_true,
        and_true]
      exact h.known u analysis
  distinct := by
    rw [Dictionary.keys_erase]
    exact h.distinct.filter _

/-- A question changes nothing that is kept or known. -/
theorem Recalls.ask (h : Recalls limit document kept H s) (asks : ∀ u, ¬ r.Validates u)
    (still : ∀ u, ¬ r.Moves document u) : Recalls limit document kept (H ++ [r]) s where
  texts := h.texts_still still
  known u analysis := by
    have stays : r ≠ .closed u := fun closes => still u (closes ▸ rfl)
    simp only [settled_concat, asks u, stays, false_and, false_or, ne_eq, not_false_eq_true,
      and_true]
    exact h.known u analysis
  distinct := h.distinct

/-- One more request. -/
theorem Recalls.handle (h : Recalls limit document kept H s) (keeps : W.Keeps document kept)
    (proper : H.Proper document) (admits : H.Admits document r) :
    ∃ handled, s.handle limit W r = .ok handled ∧
      Recalls limit document kept (H ++ [r]) handled.session ∧
      Replies limit document H r s handled := by
  cases r with
  | opened uri text =>
    obtain ⟨path, place⟩ := admits
    exact h.validate place rfl
      (h.texts_tell (keeps.opened _ _ _) (fun _ _ => Iff.rfl) fun _ => Iff.rfl)
      (told_concat.mpr (.inl ⟨rfl, rfl⟩)) (fun _ => Iff.rfl) (by simp)
  | changed uri text =>
    obtain ⟨isOpen, undropped⟩ := admits
    obtain ⟨path, place⟩ := proper.exists_path isOpen
    obtain ⟨former, told⟩ := isOpen.exists_told undropped
    -- The document is open, so the workspace replaces its text.
    have held : (kept s.documents (document uri)).isSome := by
      rw [(h.texts uri former).mpr told, Option.isSome_some]
    have now := fun d => keeps.changed s.documents uri text d held
    rw [Session.handle, revalidate_eq keeps ((now _).trans (if_pos rfl))]
    exact h.validate place rfl (h.texts_tell now (fun _ _ => Iff.rfl) fun _ => Iff.rfl)
      (told_concat.mpr (.inl ⟨rfl, rfl⟩)) (fun _ => Iff.rfl) (by simp)
  | saved uri =>
    obtain ⟨isOpen, undropped⟩ := admits
    obtain ⟨path, place⟩ := proper.exists_path isOpen
    obtain ⟨text, told⟩ := isOpen.exists_told undropped
    rw [Session.handle, revalidate_eq keeps ((h.texts uri text).mpr told)]
    exact h.validate place rfl (h.texts_still fun _ => id) (told_concat.mpr (.inr ⟨told, id⟩))
      (fun _ => Iff.rfl) (by simp)
  | closed uri =>
    refine ⟨_, rfl, h.close keeps uri, ⟨fun u hu => absurd hu id, fun u same => ?_, by simp,
      by simp⟩⟩
    cases same
    exact ⟨rfl, rfl⟩
  | symbols uri =>
    refine ⟨_, rfl, h.ask (fun _ => id) (fun _ => id), ⟨fun u hu => absurd hu id, by simp,
      fun u same => ?_, by simp⟩⟩
    cases same
    refine ⟨rfl, rfl, fun text settled => ?_, fun closed => ?_⟩
    · rw [h.find?_eq_some settled]
      rfl
    · rw [h.find?_eq_none proper closed]
      rfl
  | hover uri position =>
    refine ⟨_, rfl, h.ask (fun _ => id) (fun _ => id), ⟨fun u hu => absurd hu id, by simp,
      by simp, fun u _ same => ?_⟩⟩
    cases same
    refine ⟨rfl, rfl, fun text settled => ?_, fun closed => ?_⟩
    · rw [h.find?_eq_some settled]
      rfl
    · rw [h.find?_eq_none proper closed]
      rfl

/-! ## Runs -/

/-- The session that some steps lead to. -/
def sessionAfter (s : Session σ) (steps : List (Handled σ)) : Session σ :=
  (steps.getLast?.map Handled.session).getD s

@[simp] theorem sessionAfter_nil (s : Session σ) : sessionAfter s [] = s := rfl

@[simp] theorem sessionAfter_cons (s : Session σ) (step : Handled σ) (steps : List (Handled σ)) :
    sessionAfter s (step :: steps) = sessionAfter step.session steps := by
  simp only [sessionAfter, List.getLast?_cons]
  cases steps.getLast? <;> rfl

@[simp] theorem sessionAfter_concat (s : Session σ) (steps : List (Handled σ)) (step : Handled σ) :
    sessionAfter s (steps ++ [step]) = step.session := by
  simp [sessionAfter]

/-- One more request is handled in the session that the others lead to. -/
theorem run_concat {steps : List (Handled σ)} (ran : s.run limit W H = .ok steps)
    (more : (sessionAfter s steps).handle limit W r = .ok handled) :
    s.run limit W (H ++ [r]) = .ok (steps ++ [handled]) := by
  induction H generalizing s steps with
  | nil =>
    cases ran
    rw [sessionAfter_nil] at more
    simp only [List.nil_append, Session.run, more]
    rfl
  | cons first H ih =>
    simp only [List.cons_append, Session.run] at ran ⊢
    cases hs : s.handle limit W first with
    | error e => simp [hs, bind, Except.bind] at ran
    | ok step =>
      cases hr : step.session.run limit W H with
      | error e => simp [hs, hr, bind, Except.bind] at ran
      | ok others =>
        simp only [hs, hr, bind, Except.bind, pure, Except.pure, Except.ok.injEq] at ran
        subst ran
        rw [sessionAfter_cons] at more
        simp only [ih hr more, bind, Except.bind, pure, Except.pure, List.cons_append]

/-- A step of a session answers to the requests up to it. -/
structure FollowsHistory (limit : Nat) (W : Workspace σ ε) (document : String → String)
    (H : History) (r : Request) (before : Session σ) (handled : Handled σ) : Prop where
  handles : before.handle limit W r = .ok handled
  knows : Knows limit document (H ++ [r]) handled.session
  replies : Replies limit document H r before handled

/-- A session that is asked properly goes on, and keeps and knows what its history says. -/
theorem exists_run (limit : Nat) (keeps : W.Keeps document kept) (proper : H.Proper document) :
    ∃ steps, Session.run limit W (.empty W) H = .ok steps ∧ steps.length = H.length ∧
      Recalls limit document kept H (sessionAfter (.empty W) steps) ∧
      ∀ k r, H[k]? = some r → ∃ handled, steps[k]? = some handled ∧
        FollowsHistory limit W document (H.take k) r (sessionAfter (.empty W) (steps.take k))
          handled := by
  induction proper with
  | nil => exact ⟨[], rfl, rfl, recalls_empty limit keeps, by simp⟩
  | @concat H r proper admits ih =>
    obtain ⟨steps, ran, length, recalls, answers⟩ := ih
    obtain ⟨handled, handles, recalled, replies⟩ := recalls.handle keeps proper admits
    refine ⟨steps ++ [handled], run_concat ran handles, by simp [length], by simpa,
      fun k q hq => ?_⟩
    rcases Nat.lt_or_ge k H.length with earlier | later
    · rw [List.getElem?_append_left earlier] at hq
      have early : k ≤ H.length := Nat.le_of_lt earlier
      rw [List.getElem?_append_left (length ▸ earlier), List.take_append_of_le_length early,
        List.take_append_of_le_length (length ▸ early)]
      exact answers k q hq
    · rw [List.getElem?_append_right later, List.getElem?_singleton] at hq
      obtain ⟨last, rfl⟩ : k - H.length = 0 ∧ r = q := by
        split at hq
        · exact ⟨by omega, Option.some.inj hq⟩
        · cases hq
      obtain rfl : k = H.length := by omega
      rw [List.take_left, ← length, List.take_left, List.getElem?_concat_length]
      exact ⟨handled, rfl, handles, recalled.knows (.concat proper admits), replies⟩

/-- With a workspace that keeps what it is told, every session goes on as long as it is asked
properly, and every step of it follows the history. The URIs that something is known of are those
that are open; what is known, published and answered is what the analysis of the text says that the
document had when its URI was last opened, changed or saved, whatever was asked of other documents
in between. If a document is called by one URI alone, that is the text last told through this
URI. -/
theorem session_follows_history (limit : Nat) (keeps : W.Keeps document kept) {requests : History}
    (proper : requests.Proper document) :
    ∃ steps, Session.run limit W (.empty W) requests = .ok steps ∧
      steps.length = requests.length ∧
      ∀ k r, requests[k]? = some r → ∃ handled, steps[k]? = some handled ∧
        FollowsHistory limit W document (requests.take k) r
          (sessionAfter (.empty W) (steps.take k)) handled ∧
        ∀ uri text,
          (∀ q ∈ requests.take k ++ [r], document q.uri = document uri → q.uri = uri) →
          History.Settled document (requests.take k ++ [r]) uri text →
            History.Latest (requests.take k ++ [r]) uri text := by
  obtain ⟨steps, ran, length, -, follows⟩ := exists_run limit keeps proper
  refine ⟨steps, ran, length, fun k r hr => ?_⟩
  obtain ⟨handled, here, step⟩ := follows k r hr
  exact ⟨handled, here, step, fun uri text alone settled => settled.latest alone⟩

/-! ## Documents apart -/

/-- The URI of a document. -/
def plainUri : String := "file:///nonexistent-rgg-dir/b.rgg"

/-- The URI of another document. -/
def otherUri : String := "file:///nonexistent-rgg-dir/c.rgg"

/-- A text without errors. -/
def plainText : String := "begin x := 1 end"

/-- A text in which a string is subtracted from. -/
def mixedText : String := "begin s := \"a\"; t := s - 1 end"

/-- Two documents are opened, one is changed and the other one closed; then the first is saved, and
both are asked about. -/
def interleaved : History :=
  [.opened plainUri plainText, .opened otherUri plainText, .changed plainUri mixedText,
    .closed otherUri, .saved plainUri, .hover plainUri ⟨0, 6⟩, .symbols otherUri]

/-- A workspace in which each URI has a document of its own. -/
def apart : Workspace (Dictionary String String) Unit := .stored id fun _ => .error ()

theorem isOpen_plainUri {rest : History} (stays : .closed plainUri ∉ rest) :
    History.IsOpen (.opened plainUri plainText :: rest) plainUri :=
  ⟨[], _, rest, rfl, ⟨_, rfl⟩, fun _ hq same => stays (same ▸ hq)⟩

theorem proper_interleaved : interleaved.Proper id := by
  have first : History.Proper id (interleaved.take 1) := .concat .nil ⟨_, rfl⟩
  have second : History.Proper id (interleaved.take 2) := .concat first ⟨_, rfl⟩
  have third : History.Proper id (interleaved.take 3) :=
    .concat second ⟨isOpen_plainUri (by decide +kernel), not_dropped Function.injective_id⟩
  have fourth : History.Proper id (interleaved.take 4) := .concat third trivial
  have fifth : History.Proper id (interleaved.take 5) :=
    .concat fourth ⟨isOpen_plainUri (by decide +kernel), not_dropped Function.injective_id⟩
  have sixth : History.Proper id (interleaved.take 6) := .concat fifth trivial
  exact .concat sixth trivial

/-- The first document is answered from the text that it was changed to, and the other one is
forgotten. -/
theorem session_follows_history_interleaved :
    apart.Keeps id Dictionary.find? ∧ interleaved.Proper id ∧
      ∃ steps, Session.run depthLimit apart (.empty apart) interleaved = .ok steps ∧
        ∃ hovered asked, steps[5]? = some hovered ∧ steps[6]? = some asked ∧
          hovered.published = [] ∧ plainUri ∈ hovered.session.known.keys ∧
          hovered.answer = .hover (hover? (analyseText depthLimit plainUri mixedText) ⟨0, 6⟩) ∧
          History.Latest interleaved plainUri mixedText ∧ asked.answer = .symbols [] := by
  have keeps : apart.Keeps id Dictionary.find? := Workspace.stored_keeps id _
  obtain ⟨steps, ran, -, follows⟩ := session_follows_history depthLimit keeps proper_interleaved
  obtain ⟨hovered, sixth, hover, -⟩ := follows 5 _ rfl
  obtain ⟨asked, seventh, ask, latest⟩ := follows 6 _ rfl
  have other : otherUri ≠ plainUri := by decide +kernel
  have settled : History.Settled id (interleaved.take 5) plainUri mixedText := by
    refine ⟨interleaved.take 4, .saved plainUri, [], rfl, ⟨rfl, ?_⟩, by simp⟩
    exact ⟨interleaved.take 2, _, [.closed otherUri, .saved plainUri], rfl, ⟨rfl, rfl⟩,
      by simp [Request.Moves, other]⟩
  have still : History.Settled id (interleaved.take 5 ++ interleaved.drop 5) plainUri mixedText :=
    settled.append (by simp [interleaved, Request.Validates])
  have isOpen : History.IsOpen (interleaved.take 6) plainUri := isOpen_plainUri (by decide +kernel)
  have forgotten : ¬ History.IsOpen (interleaved.take 3 ++ [.closed otherUri] ++
      [.saved plainUri] ++ [.hover plainUri ⟨0, 6⟩]) otherUri := by
    simp only [isOpen_concat]
    simp
  obtain ⟨-, published, answer, -⟩ := hover.replies.hover plainUri ⟨0, 6⟩ rfl
  obtain ⟨-, -, -, empty⟩ := ask.replies.symbols otherUri rfl
  exact ⟨keeps, proper_interleaved, steps, ran, hovered, asked, sixth, seventh, published,
    (hover.knows.uris plainUri).mpr isOpen, answer mixedText settled,
    latest plainUri mixedText (fun _ _ => id) still, empty forgotten⟩

/-! ## A URI that is none, and a document with two URIs -/

/-- A text that is no URI. -/
def brokenUri : String := "file://[/b.rgg"

/-- The URI of a document, a character of which is escaped. -/
def escapedUri : String := "file:///nonexistent-rgg-dir/%62.rgg"

/-- The URI without its escapes. -/
def unescaped (uri : String) : String := String.ofList (unescape uri.toList)

/-- A workspace that takes URIs for one document if they differ in their escapes alone. -/
def sharing : Workspace (Dictionary String String) Unit := .stored unescaped fun _ => .error ()

/-- The document is opened through both URIs and saved through the first. -/
def twoUris : History :=
  [.opened plainUri plainText, .opened escapedUri mixedText, .saved plainUri]

theorem unescaped_escapedUri : unescaped escapedUri = unescaped plainUri := by
  decide +kernel

theorem proper_twoUris : twoUris.Proper unescaped := by
  have first : History.Proper unescaped (twoUris.take 1) := .concat .nil ⟨_, rfl⟩
  have second : History.Proper unescaped (twoUris.take 2) := .concat first ⟨_, rfl⟩
  refine .concat second ⟨isOpen_plainUri (by decide +kernel), fun dropped => ?_⟩
  -- No document is closed.
  obtain ⟨other, -, -, closed⟩ := dropped.exists_other
  simp [twoUris] at closed

/-- A document is refused if its URI is none. And where the workspace takes two URIs for one
document, one of them may be analysed with a text that was not told through it; until then what is
known of it may not be about the text of its document. -/
theorem unparsed_and_shared_uris :
    Session.run depthLimit apart (.empty apart) [.opened brokenUri plainText] =
        .error (.uri .misplacedBrackets) ∧
      sharing.Keeps unescaped Dictionary.find? ∧ twoUris.Proper unescaped ∧
      twoUris.Latest plainUri plainText ∧
      History.Told unescaped (twoUris.take 2) plainUri mixedText ∧
      ∃ steps earlier last,
        Session.run depthLimit sharing (.empty sharing) twoUris = .ok steps ∧
        steps[1]? = some earlier ∧ steps[2]? = some last ∧
        earlier.session.known.find? plainUri ≠ some (analyseText depthLimit plainUri mixedText) ∧
        last.session.known.find? plainUri ≠ some (analyseText depthLimit plainUri plainText) ∧
        last.published ≠ [⟨plainUri, (analyseText depthLimit plainUri plainText).diagnostics⟩] := by
  have refused : Session.run depthLimit apart (.empty apart) [.opened brokenUri plainText] =
      .error (.uri .misplacedBrackets) := by
    have address : uriPath brokenUri = .error .misplacedBrackets := by decide +kernel
    rw [Session.run, Session.handle, Session.validate, analyseDocument, address]
    rfl
  have latest : twoUris.Latest plainUri plainText := by
    refine ⟨[], _, [.opened escapedUri mixedText, .saved plainUri], rfl, .inl rfl, ?_⟩
    intro q hq other
    have distinct : escapedUri ≠ plainUri := by decide +kernel
    simp only [List.mem_cons, List.not_mem_nil, or_false] at hq
    rcases hq with rfl | rfl <;> simp [distinct]
  have told : History.Told unescaped (twoUris.take 2) plainUri mixedText :=
    ⟨twoUris.take 1, _, [], rfl, ⟨unescaped_escapedUri, rfl⟩, by simp⟩
  have stale : (Session.run depthLimit sharing (.empty sharing) twoUris).toOption.any
      fun steps => steps[1]?.any fun earlier => steps[2]?.any fun last =>
        earlier.session.known.find? plainUri ≠ some (analyseText depthLimit plainUri mixedText) ∧
          last.session.known.find? plainUri ≠ some (analyseText depthLimit plainUri plainText) ∧
          last.published ≠
            [⟨plainUri, (analyseText depthLimit plainUri plainText).diagnostics⟩] := by
    decide +kernel
  obtain ⟨steps, ran, stale⟩ := (Option.any_eq_true _ _).mp stale
  obtain ⟨earlier, second, stale⟩ := (Option.any_eq_true _ _).mp stale
  obtain ⟨last, third, stale⟩ := (Option.any_eq_true _ _).mp stale
  refine ⟨refused, Workspace.stored_keeps unescaped _, proper_twoUris, latest, told, steps, earlier,
    last, ?_, second, third, of_decide_eq_true stale⟩
  cases outcome : Session.run depthLimit sharing (.empty sharing) twoUris with
  | error e => simp [outcome, Except.toOption] at ran
  | ok others => simpa [outcome, Except.toOption] using ran

end BlockLang.Editor
