/-!
# Dictionaries

A dictionary keeps its keys in the order of their first insertion; inserting a key that is present
replaces its value and leaves the key in its place.

## Main definitions

* `Dictionary.insert d k v`: the dictionary with the value of `k` set to `v`
* `Dictionary.find? d k`: the value of a key
* `Dictionary.erase d k`: the dictionary without a key
* `Dictionary.ofList l`: the pairs of a list, inserted in turn

## Main results

* `Dictionary.find?_insert`: a dictionary gives back what was inserted last
* `Dictionary.find?_erase`: a dictionary holds every key but the one that was taken out
* `Dictionary.mem_values_insert`: what is inserted is the only new value
* `Dictionary.keys_insert`: a new key comes last, an old one keeps its place
* `Dictionary.mem_keys_iff`: a key is present if it has a value
-/

namespace BlockLang

/-- Pairs of a key and a value, in the order in which the keys were first inserted. -/
structure Dictionary (κ α : Type) where
  entries : List (κ × α)
  deriving DecidableEq, Repr, Inhabited

namespace Dictionary

variable {κ α : Type} [DecidableEq κ]

/-- The dictionary without keys. -/
def empty : Dictionary κ α := ⟨[]⟩

/-- Sets the value of `key` in a list of pairs, at its place or at the end. -/
def insertEntry (key : κ) (value : α) : List (κ × α) → List (κ × α)
  | [] => [(key, value)]
  | (k, v) :: rest => if k = key then (k, value) :: rest else (k, v) :: insertEntry key value rest

/-- The dictionary with the value of `key` set to `value`. -/
def insert (d : Dictionary κ α) (key : κ) (value : α) : Dictionary κ α :=
  ⟨insertEntry key value d.entries⟩

/-- The value of `key` in a list of pairs. -/
def findEntry (key : κ) : List (κ × α) → Option α
  | [] => none
  | (k, v) :: rest => if k = key then some v else findEntry key rest

/-- The value of a key. -/
def find? (d : Dictionary κ α) (key : κ) : Option α := findEntry key d.entries

/-- The key is present. -/
def contains (d : Dictionary κ α) (key : κ) : Bool := (d.find? key).isSome

/-- The dictionary without `key`. -/
def erase (d : Dictionary κ α) (key : κ) : Dictionary κ α :=
  ⟨d.entries.filter fun entry => entry.1 ≠ key⟩

/-- The keys in their order. -/
def keys (d : Dictionary κ α) : List κ := d.entries.map Prod.fst

/-- The values in the order of their keys. -/
def values (d : Dictionary κ α) : List α := d.entries.map Prod.snd

/-- The number of keys. -/
def size (d : Dictionary κ α) : Nat := d.entries.length

/-- The pairs of a list, inserted in turn. -/
def ofList (l : List (κ × α)) : Dictionary κ α :=
  l.foldl (fun d entry => d.insert entry.1 entry.2) empty

theorem findEntry_insertEntry (key k : κ) (value : α) (l : List (κ × α)) :
    findEntry k (insertEntry key value l) = if k = key then some value else findEntry k l := by
  induction l with
  | nil => simp [insertEntry, findEntry, eq_comm]
  | cons entry rest ih => grind [insertEntry, findEntry]

/-- A key without a value does not stand in the list. -/
theorem findEntry_eq_none_iff (key : κ) (l : List (κ × α)) :
    findEntry key l = none ↔ key ∉ l.map Prod.fst := by
  induction l with
  | nil => simp [findEntry]
  | cons entry rest ih => grind [findEntry]

/-- What is found stands in the list. -/
theorem mem_of_findEntry_eq_some {key : κ} {value : α} {l : List (κ × α)}
    (h : findEntry key l = some value) : (key, value) ∈ l := by
  induction l with
  | nil => cases h
  | cons entry rest ih => grind [findEntry]

/-- A dictionary gives back what was inserted last. -/
theorem find?_insert (d : Dictionary κ α) (key k : κ) (value : α) :
    (d.insert key value).find? k = if k = key then some value else d.find? k :=
  findEntry_insertEntry key k value d.entries

/-- A dictionary holds every key but the one that was taken out. -/
theorem find?_erase (d : Dictionary κ α) (key k : κ) :
    (d.erase key).find? k = if k = key then none else d.find? k := by
  obtain ⟨l⟩ := d
  simp only [find?, erase]
  induction l with
  | nil => simp [findEntry]
  | cons entry rest ih => grind [findEntry]

@[simp] theorem find?_empty (k : κ) : (empty : Dictionary κ α).find? k = none := rfl

/-- What is inserted is the only new value. -/
theorem mem_values_insert {d : Dictionary κ α} {key : κ} {value v : α}
    (h : v ∈ (d.insert key value).values) : v = value ∨ v ∈ d.values := by
  obtain ⟨l⟩ := d
  simp only [values, insert] at h ⊢
  induction l with
  | nil => simpa [insertEntry] using h
  | cons entry rest ih => grind [insertEntry]

/-- A new key comes last, an old one keeps its place. -/
theorem keys_insert (d : Dictionary κ α) (key : κ) (value : α) :
    (d.insert key value).keys = if key ∈ d.keys then d.keys else d.keys ++ [key] := by
  obtain ⟨l⟩ := d
  simp only [keys, insert]
  induction l with
  | nil => simp [insertEntry]
  | cons entry rest ih => grind [insertEntry]

theorem keys_erase (d : Dictionary κ α) (key : κ) :
    (d.erase key).keys = d.keys.filter (· ≠ key) := by
  simp [keys, erase, List.filter_map, Function.comp_def]

/-- A key is present if it has a value. -/
theorem mem_keys_iff {d : Dictionary κ α} {key : κ} :
    key ∈ d.keys ↔ ∃ value, d.find? key = some value := by
  rw [← Option.ne_none_iff_exists', Ne, find?, findEntry_eq_none_iff, Decidable.not_not]
  rfl

/-- No key is repeated by an insertion. -/
theorem nodup_keys_insert {d : Dictionary κ α} (h : d.keys.Nodup) (key : κ) (value : α) :
    (d.insert key value).keys.Nodup := by
  rw [keys_insert]
  split
  · exact h
  · next other =>
    refine List.nodup_append.mpr ⟨h, by simp, fun a ha b hb => ?_⟩
    rintro rfl
    exact other (List.mem_singleton.mp hb ▸ ha)

theorem ofList_concat (l : List (κ × α)) (entry : κ × α) :
    ofList (l ++ [entry]) = (ofList l).insert entry.1 entry.2 := by
  simp [ofList]

end Dictionary

end BlockLang
