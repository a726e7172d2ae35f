import BlockLang.Proofs.Run.Lookahead
import Mathlib.Data.List.Forall2
import Mathlib.Logic.Relator

/-!
# Alike but for names

Two streams may differ in their names, their literals and their layout. What two runs keep is then
alike: types, productions and classes are the same, names correspond one to one, and tokens that
correspond stand at the same place of their streams. Look-ups and declarations do not tell such
scopes apart.

## Main definitions

* `Renaming`: which names correspond, and which deliveries stand at one place
* `Delivery.Renamed name`: the deliveries differ in names, literals and layout alone
* `TokenStream.Alike r`: at every place the streams deliver what differs in nothing else
* `Token.Alike`, `Variable.Alike`, `Fault.Alike`, `Event.Alike`, `Stop.Alike`: what a run tells
* `Table.Alike`, `Scopes.Alike`, `AnalyserState.Alike`: what a run keeps

## Main results

* `Table.Alike.find?`, `Scopes.Alike.lookup`: names that correspond stand for variables alike
* `Scopes.Alike.declare`: a declaration leaves scopes alike
-/

namespace BlockLang

/-- The tokens have one type, and their names correspond if they are names. -/
structure Token.Renamed (name : String → String → Prop) (t t' : Token) : Prop where
  type_eq : t'.type = t.type
  named : t.type = .identifier → name t.value t'.value

/-- The deliveries are tokens that differ in names, literals and layout alone, or both are
errors. -/
inductive Delivery.Renamed (name : String → String → Prop) : Delivery → Delivery → Prop
  | token {t t' : Token} (h : t.Renamed name t') : Renamed name (.ok t) (.ok t')
  | error (e e' : LexicalError) : Renamed name (.error e) (.error e')

/-- Which names correspond, one to one, and which deliveries stand at one place. -/
structure Renaming where
  name : String → String → Prop
  place : Delivery → Delivery → Prop
  unique : Relator.BiUnique name

variable {r : Renaming} {x x' : String}

/-- A name that corresponds to two is the same in both, and the other way round. -/
theorem Renaming.eq_iff {y y' : String} (r : Renaming) (hx : r.name x x') (hy : r.name y y') :
    x = y ↔ x' = y' := by
  constructor
  · rintro rfl
    exact r.unique.2 hx hy
  · rintro rfl
    exact r.unique.1 hx hy

/-- The tokens differ in names, literals and layout alone, and stand at one place. -/
structure Token.Alike (r : Renaming) (t t' : Token) : Prop where
  renamed : t.Renamed r.name t'
  place : r.place (.ok t) (.ok t')

theorem Token.Alike.type_eq {t t' : Token} (h : t.Alike r t') : t'.type = t.type :=
  h.renamed.type_eq

/-- The positions are those of tokens that stand at one place. -/
def Position.Alike (r : Renaming) (p p' : Position) : Prop :=
  ∃ t t' : Token, t.Alike r t' ∧ p = t.position ∧ p' = t'.position

/-- At every place the streams deliver what differs in names, literals and layout alone. -/
def TokenStream.Alike (r : Renaming) (stream other : TokenStream) : Prop :=
  ∀ n, Delivery.Renamed r.name (stream.after n).pull.1 (other.after n).pull.1 ∧
    r.place (stream.after n).pull.1 (other.after n).pull.1

/-- The deliveries are tokens that are alike or errors at one place, and what stands behind them is
alike. -/
inductive PullAlike (r : Renaming) : Delivery × TokenStream → Delivery × TokenStream → Prop
  | token {t t' : Token} {rest rest' : TokenStream} (h : t.Alike r t')
      (later : rest.Alike r rest') : PullAlike r (.ok t, rest) (.ok t', rest')
  | error {e e' : LexicalError} {rest rest' : TokenStream} (h : r.place (.error e) (.error e'))
      (later : rest.Alike r rest') : PullAlike r (.error e, rest) (.error e', rest')

theorem TokenStream.Alike.pull {stream other : TokenStream} (h : stream.Alike r other) :
    PullAlike r stream.pull other.pull := by
  obtain ⟨now, place⟩ := h 0
  have later : TokenStream.Alike r stream.pull.2 other.pull.2 := fun n => h (n + 1)
  simp only [TokenStream.after] at now place
  generalize stream.pull = pulled, other.pull = pulled' at now place later ⊢
  obtain ⟨d, rest⟩ := pulled
  obtain ⟨d', rest'⟩ := pulled'
  cases now with
  | token renamed => exact .token ⟨renamed, place⟩ later
  | error e e' => exact .error place later

/-! ## What a run tells -/

/-- The variables have one type, names that correspond, and positions of tokens at one place. -/
structure Variable.Alike (r : Renaming) (v v' : Variable) : Prop where
  name : r.name v.identifier v'.identifier
  type_eq : v'.type = v.type
  position : v.position.Alike r v'.position

/-- The links have one class, which names the production if it is one, and positions of tokens at
one place. -/
structure FaultLink.Alike (r : Renaming) (link link' : FaultLink) : Prop where
  kind_eq : link'.kind = link.kind
  position : link.position.Alike r link'.position

/-- The chains have as many links, which are alike in turn. -/
def Fault.Alike (r : Renaming) (f f' : Fault) : Prop :=
  List.Forall₂ (FaultLink.Alike r) f.links f'.links

/-- The entries have one kind and one production, and what else they hold is alike. -/
inductive Event.Alike (r : Renaming) : Event → Event → Prop
  | begin (p : String) : Alike r (.begin p) (.begin p)
  | finish (p : String) : Alike r (.finish p) (.finish p)
  | terminal {t t' : Token} (h : t.Alike r t') : Alike r (.terminal t) (.terminal t')
  | add {v v' : Variable} (h : v.Alike r v') : Alike r (.add v) (.add v')
  | remove {v v' : Variable} (h : v.Alike r v') : Alike r (.remove v) (.remove v')
  | error {t t' : Token} {f f' : Fault} (h : t.Alike r t') (hf : f.Alike r f') :
      Alike r (.error t f) (.error t' f')

/-- The runs ended early for one reason: a fault, an error at one place of the streams, or the
limit. -/
inductive Stop.Alike (r : Renaming) : Stop → Stop → Prop
  | fault {f f' : Fault} (h : f.Alike r f') : Alike r (.fault f) (.fault f')
  | lexical {e e' : LexicalError} (h : r.place (.error e) (.error e')) :
      Alike r (.lexical e) (.lexical e')
  | tooDeep : Alike r .tooDeep .tooDeep

/-! ## What a run keeps -/

/-- The tables have as many variables, which are alike in turn, under names that correspond. -/
def Table.Alike (r : Renaming) (d d' : Table) : Prop :=
  List.Forall₂ (fun e e' => r.name e.1 e'.1 ∧ e.2.Alike r e'.2) d.entries d'.entries

/-- The global tables are alike, and those of the open loops are alike in turn. -/
structure Scopes.Alike (r : Renaming) (s s' : Scopes) : Prop where
  globals : Table.Alike r s.globals s'.globals
  loops : List.Forall₂ (Table.Alike r) s.loops s'.loops

/-- The runs stand at one place, with one sum that is being read, and what else they keep is
alike. -/
structure AnalyserState.Alike (r : Renaming) (s s' : AnalyserState) : Prop where
  lookahead : s.lookahead.Alike r s'.lookahead
  input : s.input.Alike r s'.input
  scopes : s.scopes.Alike r s'.scopes
  chain_eq : s'.chain = s.chain
  trace : List.Forall₂ (Event.Alike r) s.trace s'.trace
  notices_eq : s'.notices = s.notices

namespace Table.Alike

variable {d d' : Table}

theorem empty : Table.Alike r .empty .empty := .nil

/-- Names that correspond stand for variables alike. -/
theorem find? (h : Table.Alike r d d') (hx : r.name x x') :
    Option.Rel (Variable.Alike r) (d.find? x) (d'.find? x') := by
  obtain ⟨entries⟩ := d
  obtain ⟨entries'⟩ := d'
  simp only [Table.Alike, Dictionary.find?] at h ⊢
  induction h with
  | nil => exact .none
  | @cons e e' _ _ he _ ih =>
    -- The first entry is the one that is sought in both tables or in none.
    have same := r.eq_iff he.1 hx
    by_cases key : e.1 = x
    · simpa only [Dictionary.findEntry, if_pos key, if_pos (same.mp key)] using .some he.2
    · simpa only [Dictionary.findEntry, if_neg key, if_neg (mt same.mpr key)] using ih

theorem insert (h : Table.Alike r d d') (hx : r.name x x') {v v' : Variable} (hv : v.Alike r v') :
    Table.Alike r (d.insert x v) (d'.insert x' v') := by
  obtain ⟨entries⟩ := d
  obtain ⟨entries'⟩ := d'
  simp only [Table.Alike, Dictionary.insert] at h ⊢
  induction h with
  | nil => exact .cons ⟨hx, hv⟩ .nil
  | @cons e e' _ _ he rest ih =>
    have same := r.eq_iff he.1 hx
    by_cases key : e.1 = x
    · simpa only [Dictionary.insertEntry, if_pos key, if_pos (same.mp key)] using
        .cons ⟨he.1, hv⟩ rest
    · simpa only [Dictionary.insertEntry, if_neg key, if_neg (mt same.mpr key)] using .cons he ih

theorem values (h : Table.Alike r d d') :
    List.Forall₂ (Variable.Alike r) d.values d'.values := by
  rw [Dictionary.values, Dictionary.values, List.forall₂_map_left_iff, List.forall₂_map_right_iff]
  exact h.imp fun _ _ he => he.2

end Table.Alike

theorem rel_or {α β : Type} {R : α → β → Prop} {a b : Option α} {a' b' : Option β}
    (ha : Option.Rel R a a') (hb : Option.Rel R b b') : Option.Rel R (a.or b) (a'.or b') := by
  cases ha with
  | none => exact hb
  | some h => exact .some h

theorem map_type_eq {o o' : Option Variable} (h : Option.Rel (Variable.Alike r) o o') :
    o'.map Variable.type = o.map Variable.type := by
  cases h with
  | none => rfl
  | some h => exact congrArg some h.type_eq

namespace Scopes.Alike

variable {s s' : Scopes}

theorem empty : Scopes.Alike r .empty .empty := ⟨.empty, .nil⟩

theorem depth_eq (h : s.Alike r s') : s'.depth = s.depth := h.loops.length_eq.symm

theorem lookupLoops {loops loops' : List Table} (h : List.Forall₂ (Table.Alike r) loops loops')
    (hx : r.name x x') :
    Option.Rel (Variable.Alike r) (lookupLoops x loops) (Scopes.lookupLoops x' loops') := by
  induction h with
  | nil => exact .none
  | cons hd _ ih =>
    rw [Scopes.lookupLoops, Scopes.lookupLoops]
    exact rel_or ih (hd.find? hx)

/-- Names that correspond stand for variables alike. -/
theorem lookup (h : s.Alike r s') (hx : r.name x x') :
    Option.Rel (Variable.Alike r) (s.lookup x) (s'.lookup x') := by
  rw [Scopes.lookup, Scopes.lookup]
  exact rel_or (lookupLoops h.loops hx) (h.globals.find? hx)

/-- A declaration leaves scopes alike. -/
theorem declare (h : s.Alike r s') {v v' : Variable} (hv : v.Alike r v') :
    (s.declare v.identifier v).Alike r (s'.declare v'.identifier v') := by
  obtain ⟨globals, loops⟩ := s
  obtain ⟨globals', loops'⟩ := s'
  obtain ⟨hg, hl⟩ := h
  cases hl with
  | nil => exact ⟨hg.insert hv.name hv, .nil⟩
  | cons hd rest => exact ⟨hg, .cons (hd.insert hv.name hv) rest⟩

theorem enter (h : s.Alike r s') : s.enter.Alike r s'.enter := ⟨h.globals, .cons .empty h.loops⟩

/-- A loop scope is closed in both or in none, and its variables are alike in turn. -/
theorem leave? (h : s.Alike r s') :
    Option.Rel (fun left left' => List.Forall₂ (Variable.Alike r) left.1 left'.1 ∧
      left.2.Alike r left'.2) s.leave? s'.leave? := by
  obtain ⟨globals, loops⟩ := s
  obtain ⟨globals', loops'⟩ := s'
  obtain ⟨hg, hl⟩ := h
  cases hl with
  | nil => exact .none
  | cons hd rest => exact .some ⟨hd.values, hg, rest⟩

theorem restore (h : s.Alike r s') (n : Nat) : (s.restore n).Alike r (s'.restore n) := by
  refine ⟨h.globals, ?_⟩
  rw [Scopes.restore, Scopes.restore, h.depth_eq]
  exact List.forall₂_drop _ h.loops

end Scopes.Alike

/-- What an operand stands for depends on its place alone. -/
theorem operandType_eq_of_alike {s s' : Scopes} (h : s.Alike r s') {t t' : Token}
    (ht : t.Alike r t') : operandType s' t' = operandType s t := by
  unfold operandType
  rw [ht.type_eq]
  cases type_eq : t.type with
  | identifier =>
    exact congrArg (Option.getD · ValueType.unknown)
      (map_type_eq (h.lookup (ht.renamed.named type_eq)))
  | _ => rfl

end BlockLang
