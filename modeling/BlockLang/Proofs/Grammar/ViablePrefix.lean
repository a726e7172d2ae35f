import BlockLang.Proofs.Fault.Unwinding
import BlockLang.Proofs.Grammar.Words

/-!
# Viable prefixes

At every moment of a run the tokens accepted so far can be completed, and the words that complete
them are known: those of what is left of the open productions. A token is refused just when no such
word begins with it.

## Main definitions

* `Awaits P s K`: the words of `K` complete what was accepted to words of `P`, and no others that
  begin with the lookahead do
* `Viable P stop t`: where a run stopped, a word of `P` was within reach; if a token was refused,
  none goes on with it, and if one was not declared, some word does
* `Follows p K`: no word of `K` begins in a way that goes on with `p`
* `Analyser.Leads P m K L`: the move takes a run that awaits `K` to one that awaits `L`
* `LeadsParts P call`: the parts of a production are taken off the words that are awaited

## Main results

* `leads_rule`: a production is taken off the words that are awaited, if its parts are
* `leads_analyser`: a production is taken off the words that are awaited
-/

namespace BlockLang

/-- The words of `K` complete the accepted tokens to words of `P`, and no others that begin with the
lookahead do. -/
structure Awaits (P : Language TokenType) (s : AnalyserState) (K : Language TokenType) : Prop where
  possible : K.Possible
  sound : ∀ v ∈ K, types s.accepted ++ v ∈ P
  complete : ∀ v, types s.accepted ++ s.lookahead.type :: v ∈ P → s.lookahead.type :: v ∈ K

/-- Where a run stopped with a fault, the accepted tokens can be completed to a word of `P`. If a
token was refused, no word of `P` goes on with it, and if one was not declared, some word does. -/
def Viable (P : Language TokenType) : Stop → AnalyserState → Prop
  | .fault f, t => (∃ v, types t.accepted ++ v ∈ P) ∧
      (f.root.kind = .parse → ∀ v, types t.accepted ++ t.lookahead.type :: v ∉ P) ∧
      (f.root.kind = .undeclared → ∃ v, types t.accepted ++ t.lookahead.type :: v ∈ P)
  | _, _ => True

/-- No word of `K` begins in a way that goes on with `p`. -/
def Follows (p : Production) (K : Language TokenType) : Prop :=
  ∀ t, p.goesOn t → ¬K.Begins t

variable {P K L M : Language TokenType} {s t : AnalyserState} {p q : Production} {u : TokenType}

namespace Awaits

/-- Only the accepted tokens and the lookahead count. -/
theorem congr (h : Awaits P s K) (ha : t.accepted = s.accepted) (hl : t.lookahead = s.lookahead) :
    Awaits P t K :=
  ⟨h.possible, ha ▸ h.sound, by rw [ha, hl]; exact h.complete⟩

/-- Fewer words may be awaited if none that begins with the lookahead is lost. -/
theorem narrow (h : Awaits P s K) (possible : L.Possible) (sub : ∀ v ∈ L, v ∈ K)
    (keep : ∀ v, s.lookahead.type :: v ∈ K → s.lookahead.type :: v ∈ L) : Awaits P s L :=
  ⟨possible, fun v hv => h.sound v (sub v hv), fun v hv => keep v (h.complete v hv)⟩

theorem left (h : Awaits P s (K + L)) (possible : K.Possible)
    (hL : ¬L.Begins s.lookahead.type) : Awaits P s K :=
  h.narrow possible (fun _ hv => .inl hv) fun v hv => hv.resolve_right fun hv => hL ⟨v, hv⟩

/-- One of two tokens was seen, after which the same words are awaited. -/
theorem either {a b : TokenType} (h : Awaits P s ({[a]} * K + {[b]} * K))
    (hs : s.lookahead.type = a ∨ s.lookahead.type = b) :
    Awaits P s ({[s.lookahead.type]} * K) := by
  refine h.narrow (by simpa using h.possible) (fun v hv => ?_) fun v hv => ?_
  · rcases hs with hs | hs
    · exact .inl (hs ▸ hv)
    · exact .inr (hs ▸ hv)
  · rw [Language.cons_mem_singleton_mul]
    rcases hv with hv | hv
    · exact ⟨rfl, (Language.cons_mem_singleton_mul.mp hv).2⟩
    · exact ⟨rfl, (Language.cons_mem_singleton_mul.mp hv).2⟩

theorem right (h : Awaits P s (K + L)) (possible : L.Possible)
    (hK : ¬K.Begins s.lookahead.type) : Awaits P s L :=
  h.narrow possible (fun _ hv => .inr hv) fun v hv => hv.resolve_left fun hv => hK ⟨v, hv⟩

/-- A run that has accepted nothing awaits all words. -/
theorem start (possible : P.Possible) (h : s.accepted = []) : Awaits P s P :=
  ⟨possible, by simp [h], by simp [h]⟩

/-- What the run awaits completes what it accepted. -/
theorem exists_completion (h : Awaits P s K) : ∃ v, types s.accepted ++ v ∈ P := by
  obtain ⟨v, hv⟩ := h.possible
  exact ⟨v, h.sound v hv⟩

/-- The lookahead was taken. -/
theorem advance {next : Token} {input : TokenStream}
    (h : Awaits P s ({[s.lookahead.type]} * K)) : Awaits P (s.advance next input) K := by
  refine ⟨(Language.possible_mul.mp h.possible).2, fun v hv => ?_, fun v hv => ?_⟩
  · simpa using h.sound _ (Language.cons_mem_singleton_mul.mpr ⟨rfl, hv⟩)
  · exact (Language.cons_mem_singleton_mul.mp (h.complete _ (by simpa using hv))).2

end Awaits

/-- A production on the way out changes nothing about a stop. -/
theorem Viable.within {stop : Stop} {p : String} {lookahead : Token} (h : Viable P stop t) :
    Viable P (stop.through p lookahead) (t.abandon p stop) := by
  cases stop with
  | fault f => simpa [Viable, Stop.through] using h
  | lexical e => trivial
  | tooDeep => trivial

theorem follows_add (hK : Follows p K) (hL : Follows p L) : Follows p (K + L) := fun t ht => by
  simp [hK t ht, hL t ht]

theorem follows_token (h : p.goesOn u = false) : Follows p ({[u]} * K) := fun t ht => by
  rw [Language.begins_singleton_mul]
  rintro ⟨rfl, -⟩
  simp [h] at ht

/-- A production that goes on less is followed by more. -/
theorem Follows.mono (h : Follows q K) (sub : ∀ t, p.goesOn t → q.goesOn t) : Follows p K :=
  fun t ht => h t (sub t ht)

/-- A production that never goes on is followed by anything. -/
theorem follows_of_closed (h : p.goesOn = fun _ => false) : Follows p K := fun t ht => by
  simp [h] at ht

namespace Analyser

variable {α β : Type}

/-- The move takes a run that awaits the words of `K` to one that awaits those of `L`. -/
def Leads (P : Language TokenType) (m : Analyser α) (K L : Language TokenType) : Prop :=
  ∀ s, Awaits P s K → Ensures m (fun _ t => Awaits P t L) (Viable P) s

/-! ## Moves -/

theorem leads_pure (a : α) : Leads P (pure a) K K := fun _ h => h

theorem leads_bind {m : Analyser α} {f : α → Analyser β} (hm : Leads P m K L)
    (hf : ∀ a, Leads P (f a) L M) : Leads P (m >>= f) K M := fun s h =>
  ensures_bind.mpr ((hm s h).answer fun a t ht => hf a t ht)

/-- What follows may depend on the lookahead. -/
theorem leads_lookahead {f : Token → Analyser β}
    (hf : ∀ s, Awaits P s K → Ensures (f s.lookahead) (fun _ t => Awaits P t L) (Viable P) s) :
    Leads P (lookahead >>= f) K L := fun s h => ensures_bind.mpr (hf s h)

/-- The lookahead tells which of two kinds of words it begins. -/
theorem leads_lookingAt {p : TokenType → Bool} {f : Bool → Analyser β}
    (hK : K.Possible) (hL : L.Possible) (yes : ∀ u, p u → ¬K.Begins u)
    (no : ∀ u, p u = false → ¬L.Begins u) (leave : Leads P (f false) K M)
    (goOn : ∀ s, p s.lookahead.type → Awaits P s L →
      Ensures (f true) (fun _ t => Awaits P t M) (Viable P) s) :
    Leads P (lookingAt p >>= f) (K + L) M := by
  intro s h
  rw [ensures_bind, ensures_lookingAt]
  -- Either way no word is lost: those of the other kind do not begin with the lookahead.
  cases hp : p s.lookahead.type with
  | false => exact leave s (h.left hK (no _ hp))
  | true => exact goOn s hp (h.right hL (yes _ hp))

/-- A token is refused if no awaited word begins with it, it lacks a declaration only if some does,
and a mismatch may arise anywhere. -/
theorem viable_rejectAt {token : Token} {cause : Cause} {Q : α → AnalyserState → Prop}
    (h : Awaits P s K) (hc : cause.kind = .parse → ¬K.Begins s.lookahead.type)
    (hu : cause.kind = .undeclared → K.Begins s.lookahead.type) :
    Ensures (rejectAt (α := α) token cause) Q (Viable P) s := by
  rw [ensures_rejectAt]
  refine ⟨by simpa using h.exists_completion, fun hp v hv => ?_, fun hn => ?_⟩
  · exact hc hp ⟨v, h.complete v (by simpa using hv)⟩
  · obtain ⟨v, hv⟩ := hu hn
    exact ⟨v, by simpa using h.sound _ hv⟩

theorem viable_reject {cause : Token → Cause} {Q : α → AnalyserState → Prop}
    (h : Awaits P s K) (hK : ¬K.Begins s.lookahead.type)
    (hc : (cause s.lookahead).kind = .parse) : Ensures (reject (α := α) cause) Q (Viable P) s :=
  ensures_reject.mpr (viable_rejectAt h (fun _ => hK) fun hu => by cases hc.symm.trans hu)

/-- A token is taken off the words that are awaited. -/
theorem leads_accept (u : TokenType) : Leads P (accept u) ({[u]} * K) K := by
  intro s h
  -- No awaited word begins with anything but the wanted type.
  refine ensures_accept (fun next input hu _ => ?_) (fun _ _ _ _ => trivial) fun hu => ?_
  · subst hu
    exact h.advance
  · exact viable_rejectAt h (fun _ => by simp [hu]) nofun

theorem leads_expect (u : TokenType) : Leads P (expect u) ({[u]} * K) K :=
  leads_bind (leads_accept u) fun _ => leads_pure _

theorem leads_require {p : TokenType → Bool} {cause : Token → Cause}
    (h : ∀ u, p u = false → ¬K.Begins u) (hc : ∀ t, (cause t).kind = .parse) :
    Leads P (require p cause) K K := by
  intro s hs
  rw [ensures_require]
  split
  · exact hs
  · next hp =>
    exact viable_rejectAt hs (fun _ => h _ (by simpa using hp)) fun hu => by
      cases (hc _).symm.trans hu

/-- An identifier is asked for a declaration only where an awaited word begins with one. -/
theorem leads_requireDeclared (hK : K.Begins .identifier) : Leads P requireDeclared K K := by
  intro s h
  rw [ensures_requireDeclared]
  split
  · next identifier =>
    split
    · exact h
    · exact viable_rejectAt h nofun fun _ => identifier ▸ hK
  · exact h

theorem leads_typeOf (token : Token) : Leads P (typeOf token) K K := fun _ h => h

theorem leads_declare (v : Variable) : Leads P (declare v) K K := fun s h =>
  ensures_declare.mpr (h.congr (by simp; rfl) rfl)

theorem leads_beginChain : Leads P beginChain K K := fun _ h => h.congr rfl rfl

theorem leads_beginTerm : Leads P beginTerm K K := fun _ h => h.congr rfl rfl

theorem leads_recordTerm (t : ValueType) : Leads P (recordTerm t) K K := fun _ h => h.congr rfl rfl

theorem leads_checkSum (join : Option Join) : Leads P (checkSum join) K K := by
  intro s h
  rw [ensures_checkSum]
  split
  · exact viable_rejectAt h nofun nofun
  · exact h

theorem leads_checkFactor (operator : TokenType) (t : ValueType) (side : String) (token : Token) :
    Leads P (checkFactor operator t side token) K K := by
  intro s h
  rw [ensures_checkFactor]
  split
  · exact viable_rejectAt h nofun nofun
  · exact h

/-! ## Frames -/

theorem leads_inFreshChain {body : Analyser α} (h : Leads P body K L) :
    Leads P (inFreshChain body) K L := by
  intro s hs
  rw [ensures_inFreshChain]
  refine (h { s with chain := .fresh } (hs.congr rfl rfl)).imp (fun _ _ ht => ht.congr rfl rfl)
    fun stop _ ht => ?_
  cases stop <;> exact ht

theorem leads_inLoopScope {body : Analyser α} (h : Leads P body K L) :
    Leads P (inLoopScope body) K L := by
  intro s hs
  rw [ensures_inLoopScope]
  refine (h (enterLoop s) (hs.congr rfl rfl)).imp (fun _ t ht => ?_) fun stop _ ht => ?_
  · exact ht.congr t.accepted_leaveLoop t.lookahead_leaveLoop
  · cases stop <;> exact ht

theorem leads_within {body : Analyser α} (h : Leads P body K L) :
    Leads P (within p body) K L := by
  intro s hs
  rw [ensures_within]
  exact (h (s.emit (.begin p.name)) (hs.congr (by simp) rfl)).imp
    (fun _ _ ht => ht.congr (by simp) rfl) fun _ _ ht => ht.within

end Analyser

open Analyser

/-! ## Productions -/

/-- The parts of a production are taken off the words that are awaited. -/
def LeadsParts (P : Language TokenType) (call : Callee) : Prop :=
  ∀ (c : Call) (K : Language TokenType), Follows c.production K →
    Leads P (call c) (c.production.language * K) K

variable {call : Callee}

/-- The operator that was seen is taken off the words that begin with one. -/
theorem leads_conditionalOperator (hK : K.Possible) :
    Leads P (rule call .conditionalOperator) (Production.conditionalOperator.followedBy K) K := by
  intro s h
  refine ensures_bind.mpr (ensures_require.mpr ?_)
  split
  · next hr =>
    -- Only the words that begin with the operator that was seen are awaited.
    refine leads_expect _ s (h.narrow (by simp [hK]) (fun v hv => ?_) fun v hv => ?_)
    · revert hr hv
      generalize s.lookahead.type = u
      cases u <;> simp_all [Production.followedBy, Language.mem_add, TokenType.isRelational]
    · simp only [Production.followedBy, Language.mem_add, Language.cons_mem_singleton_mul] at hv
      simp [Language.cons_mem_singleton_mul]
      tauto
  · next hr =>
    refine viable_rejectAt h (fun _ => ?_) fun undeclared => by cases undeclared
    revert hr
    generalize s.lookahead.type = u
    cases u <;> simp [Production.followedBy, TokenType.isRelational]

section Productions

variable (parts : LeadsParts P call) (hK : K.Possible)

include parts hK

/-- A statement list goes on with a semicolon, and behind it with a statement. -/
theorem leads_statementList (hc : Follows .statementList K) :
    Leads P (rule call .statementList) (Production.statementList.followedBy K) K := by
  have again : ∀ u, u.startsStatement = false →
      ¬(Production.statementList.language * K).Begins u :=
    fun u hu => Language.not_begins_language_mul (by simp [Production.begins, hu])
  refine leads_bind (parts .statement _ ?_) fun _ => leads_lookingAt hK (by simp [hK]) ?_ ?_
    (leads_pure _) fun s _ => ?_
  · exact follows_add (hc.mono fun t => by cases t <;> decide) (follows_token rfl)
  · exact fun u hu => hc u (by revert hu; cases u <;> decide)
  · exact fun u hu => by simp_all
  · refine leads_bind (leads_expect _) (fun _ => leads_lookingAt hK (by simp [hK]) ?_ again
      ?_ ?_) s
    · exact fun u hu => hc u (by revert hu; cases u <;> decide)
    · exact leads_pure _
    · exact fun s _ => parts .statementList K hc s

/-- The first token tells the kind of a statement. -/
theorem leads_statement (hc : Follows .statement K) :
    Leads P (rule call .statement) (Production.statement.followedBy K) K := by
  refine leads_lookahead fun s h => ?_
  -- The token that was seen begins one kind of statement, so the others are not awaited.
  split
  · next ht =>
    refine parts .assignmentStatement K hc s (h.left (by simp [hK]) ?_)
    simp [ht, Production.begins]
  · next ht =>
    refine parts .ifStatement K (follows_of_closed rfl) s (.left (.right h ?_ ?_) ?_ ?_)
    all_goals simp [ht, hK, Production.begins]
  · next ht =>
    refine parts .whileStatement K (follows_of_closed rfl) s
      (.left (.right (.right h ?_ ?_) ?_ ?_) ?_ ?_)
    all_goals simp [ht, hK, Production.begins]
  · next ht =>
    refine parts .procedureStatement K (follows_of_closed rfl) s
      (.left (.right (.right (.right h ?_ ?_) ?_ ?_) ?_ ?_) ?_ ?_)
    all_goals simp [ht, hK, Production.begins]
  · next ht =>
    refine parts .untilStatement K (follows_of_closed rfl) s
      (.left (.right (.right (.right (.right h ?_ ?_) ?_ ?_) ?_ ?_) ?_ ?_) ?_ ?_)
    all_goals simp [ht, hK, Production.begins]
  · next ht =>
    refine leads_inLoopScope (parts .forStatement K (follows_of_closed rfl)) s
      (.right (.right (.right (.right (.right h ?_ ?_) ?_ ?_) ?_ ?_) ?_ ?_) ?_ ?_)
    all_goals simp [ht, hK, Production.begins]
  · refine viable_reject h ?_ rfl
    simp_all [Production.followedBy, Production.begins]

/-- The token behind the assignment sign tells whether a sum or a string is assigned. -/
theorem leads_assignmentStatement (hc : Follows .assignmentStatement K) :
    Leads P (rule call .assignmentStatement) (Production.assignmentStatement.followedBy K) K := by
  refine leads_bind (leads_accept _) fun target => leads_bind (leads_expect _) fun _ =>
    leads_lookahead fun s h => ?_
  split
  · next ht =>
    -- No string begins with a token that an expression begins with.
    refine leads_bind leads_beginChain (fun _ => leads_bind (parts (.expression none) K hc)
      fun _ => leads_bind (leads_pure _) fun _ => leads_declare _) s (h.left (by simp [hK]) ?_)
    rw [Language.begins_singleton_mul]
    rintro ⟨he, -⟩
    simp [he, TokenType.startsOperand] at ht
  · split
    · next ho ht =>
      refine leads_bind (leads_expect _) (fun _ => leads_bind (leads_pure _)
        fun _ => leads_declare _) s (ht ▸ h.right (by simp [hK]) ?_)
      simp [Production.begins, ho]
    · next ho ht =>
      refine ensures_bind.mpr (viable_reject h ?_ rfl)
      simp [Production.begins, ho, ht]

/-- The token behind the first branch tells whether there is another one. -/
theorem leads_ifStatement :
    Leads P (rule call .ifStatement) (Production.ifStatement.followedBy K) K := by
  refine leads_bind (leads_expect _) fun _ =>
    leads_bind (parts .condition _ (follows_of_closed rfl)) fun _ =>
    leads_bind (leads_expect _) fun _ =>
    leads_bind (parts .statementList _ (follows_add (follows_token rfl) (follows_token rfl)))
    fun _ => leads_lookahead fun s h => ?_
  split
  · next ht =>
    refine leads_bind (leads_expect _) (fun _ => leads_expect _) s (h.left (by simp [hK]) ?_)
    simp [ht]
  · next ht =>
    refine leads_bind (leads_expect _) (fun _ =>
      leads_bind (parts .statementList _ (follows_token rfl)) fun _ =>
      leads_bind (leads_expect _) fun _ => leads_expect _) s (h.right (by simp [hK]) ?_)
    simp [ht]
  · next he hi =>
    refine viable_reject h ?_ rfl
    simp_all

/-- The token behind the operator tells the kind of its right-hand side. -/
theorem leads_condition :
    Leads P (rule call .condition) (Production.condition.followedBy K) K := by
  refine leads_bind (leads_requireDeclared ?_) fun _ => leads_bind (leads_expect _) fun _ =>
    leads_bind (parts .conditionalOperator _ (follows_of_closed rfl)) fun _ =>
    leads_lookahead fun s h => ?_
  · exact Language.begins_singleton_mul.mpr ⟨rfl, by simp [hK]⟩
  split
  · next ht =>
    refine leads_bind (leads_requireDeclared (by simp [hK])) (fun _ => leads_expect _) s
      (h.left (by simp [hK]) ?_)
    simp [ht]
  · next ht =>
    refine leads_expect _ s (.left (.right h ?_ ?_) ?_ ?_)
    all_goals simp [ht, hK]
  · next ht =>
    refine leads_expect _ s (.right (.right h ?_ ?_) ?_ ?_)
    all_goals simp [ht, hK]
  · next hi hn hs =>
    refine viable_reject h ?_ rfl
    simp_all

/-- Behind a term, a sum goes on with an operator or is over. -/
theorem leads_expression (join : Option Join) (hc : Follows .expression K) :
    Leads P (rule call (.expression join)) (Production.expression.followedBy K) K := by
  refine leads_bind leads_beginTerm fun _ => leads_bind (leads_require ?_ fun _ => rfl) fun _ =>
    leads_bind (parts .term _ ?_) fun t => leads_bind (leads_recordTerm t) fun _ =>
    leads_bind (leads_checkSum join) fun _ => leads_lookingAt hK (by simp [hK]) ?_ ?_
    (leads_pure _) fun s hs h => ?_
  · exact fun u hu => Language.not_begins_language_mul (by simp [Production.begins, hu])
  · exact follows_add (hc.mono fun t => by cases t <;> decide)
      (follows_add (follows_token rfl) (follows_token rfl))
  · exact fun u hu => hc u (by revert hu; cases u <;> decide)
  · exact fun u hu => by simp_all
  · refine ensures_bind.mpr (ensures_lookahead.mpr (leads_bind (leads_accept _)
      (fun operator => leads_lookahead fun s h => ?_) s (h.either ?_)))
    · exact leads_bind (parts (.expression (some ⟨operator.type, s.lookahead⟩)) K hc)
        (fun _ => leads_pure _) s h
    · simpa using hs

/-- Behind a factor, a product goes on with an operator or is over. -/
theorem leads_term (hc : Follows .term K) :
    Leads P (rule call .term) (Production.term.followedBy K) K := by
  refine leads_bind (leads_require ?_ fun _ => rfl) fun _ =>
    leads_bind (parts .factor _ (follows_of_closed rfl)) fun left =>
    leads_lookingAt hK (by simp [hK]) ?_ ?_ (leads_pure _) fun s hs h => ?_
  · exact fun u hu => Language.not_begins_language_mul (by simp [Production.begins, hu])
  · exact fun u hu => hc u (by revert hu; cases u <;> decide)
  · exact fun u hu => by simp_all
  · refine ensures_bind.mpr (ensures_lookahead.mpr (leads_bind (leads_accept _)
      (fun operator => leads_lookahead fun s h => ?_) s (h.either ?_)))
    · exact leads_bind (leads_checkFactor _ _ _ _) (fun _ => leads_bind (leads_typeOf _) fun _ =>
        leads_bind (leads_checkFactor _ _ _ _) fun _ => leads_bind (parts .term K hc) fun _ =>
        leads_bind (leads_checkFactor _ _ _ _) fun _ => leads_pure _) s h
    · simpa using hs

/-- The first token tells the kind of a factor. -/
theorem leads_factor :
    Leads P (rule call .factor) (Production.factor.followedBy K) K := by
  refine leads_lookahead fun s h => ?_
  -- Each of the three kinds of factors begins with a token type of its own.
  split
  · next ht =>
    refine leads_bind (leads_requireDeclared (by simp [hK])) (fun _ =>
      leads_bind (leads_expect _) fun _ => leads_pure _) s (h.left (by simp [hK]) ?_)
    simp [ht]
  · next ht =>
    refine leads_bind (leads_expect _) (fun _ => leads_pure _) s (.left (.right h ?_ ?_) ?_ ?_)
    all_goals simp [ht, hK]
  · next ht =>
    refine leads_bind (leads_expect _) (fun _ => leads_bind
      (leads_inFreshChain (parts (.expression none) _ (follows_token rfl))) fun _ =>
      leads_bind (leads_expect _) fun _ => leads_pure _) s (.right (.right h ?_ ?_) ?_ ?_)
    all_goals simp [ht, hK]
  · next hi hn hp =>
    refine viable_reject h ?_ rfl
    simp_all [Production.followedBy]

end Productions

/-- A production is taken off the words that are awaited, if its parts are. -/
theorem leads_rule (parts : LeadsParts P call) (c : Call) (hK : K.Possible)
    (hc : Follows c.production K) : Leads P (rule call c) (c.production.followedBy K) K := by
  cases c with
  | statementPart =>
    exact leads_bind (leads_expect _) fun _ =>
      leads_bind (parts .statementList _ (follows_token rfl)) fun _ => leads_expect _
  | statementList => exact leads_statementList parts hK hc
  | statement => exact leads_statement parts hK hc
  | assignmentStatement => exact leads_assignmentStatement parts hK hc
  | ifStatement => exact leads_ifStatement parts hK
  | whileStatement =>
    exact leads_bind (leads_expect _) fun _ =>
      leads_bind (parts .condition _ (follows_of_closed rfl)) fun _ =>
      leads_bind (leads_expect _) fun _ =>
      leads_bind (parts .statementList _ (follows_token rfl)) fun _ =>
      leads_bind (leads_expect _) fun _ => leads_expect _
  | untilStatement =>
    exact leads_bind (leads_expect _) fun _ =>
      leads_bind (parts .statementList _ (follows_token rfl)) fun _ =>
      leads_bind (leads_expect _) fun _ => parts .condition _ hc
  | forStatement =>
    exact leads_bind (leads_expect _) fun _ => leads_bind (leads_expect _) fun _ =>
      leads_bind (parts .assignmentStatement _ (follows_token rfl)) fun _ =>
      leads_bind (leads_expect _) fun _ =>
      leads_bind (parts .condition _ (follows_of_closed rfl)) fun _ =>
      leads_bind (leads_expect _) fun _ =>
      leads_bind (parts .assignmentStatement _ (follows_token rfl)) fun _ =>
      leads_bind (leads_expect _) fun _ => leads_bind (leads_expect _) fun _ =>
      leads_bind (parts .statementList _ (follows_token rfl)) fun _ =>
      leads_bind (leads_expect _) fun _ => leads_expect _
  | procedureStatement =>
    exact leads_bind (leads_expect _) fun _ => leads_bind (leads_expect _) fun _ =>
      leads_bind (leads_expect _) fun _ =>
      leads_bind (parts .argumentList _ (follows_token rfl)) fun _ => leads_expect _
  | argumentList =>
    refine leads_bind (leads_requireDeclared ?_) fun _ => leads_bind (leads_expect _) fun _ =>
      leads_lookingAt hK (by simp [hK]) ?_ ?_ (leads_pure _)
        fun s _ => leads_bind (leads_expect _) (fun _ => parts .argumentList _ hc) s
    · exact Language.begins_singleton_mul.mpr ⟨rfl, by simp [hK]⟩
    · exact fun u hu => hc u hu
    · exact fun u hu => by simp_all
  | condition => exact leads_condition parts hK
  | conditionalOperator => exact leads_conditionalOperator hK
  | expression join => exact leads_expression parts hK join hc
  | term => exact leads_term parts hK hc
  | factor => exact leads_factor parts hK

/-- A production is taken off the words that are awaited. -/
theorem leads_analyser (limit : Nat) (c : Call) (hc : Follows c.production K) :
    Leads P (analyser limit c) (c.production.language * K) K := by
  induction limit generalizing c K with
  | zero => exact fun _ _ => trivial
  | succ limit ih =>
    rw [language_mul]
    intro s h
    -- The words that are awaited have a word of `K` at their end.
    have hK : K.Possible := by
      have possible := h.possible
      rw [← language_mul, Language.possible_mul] at possible
      exact possible.2
    exact leads_within (leads_rule (fun c K => ih c) c hK hc) s h

/-- A program is taken off the words that are awaited, if nothing but the end of the file may begin
the others. -/
theorem leads_program (limit : Nat) (hK : ∀ u, u ≠ .endOfFile → ¬K.Begins u) :
    Leads P (program limit) (Production.statementPart.language * K) K :=
  leads_bind (leads_analyser limit .statementPart (follows_of_closed rfl)) fun _ =>
    leads_require (fun u hu => hK u (by simpa using hu)) fun _ => rfl

end BlockLang
