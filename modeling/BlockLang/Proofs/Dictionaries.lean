import BlockLang.Dictionary
import Mathlib.Data.List.Basic
import Mathlib.Data.List.Induction

/-!
# Dictionaries of lists

A list of pairs makes a dictionary: each key stands at its first place and has its last value. A
dictionary without repeated keys is told by its keys and their values.

## Main results

* `Dictionary.find?_ofList`, `Dictionary.keys_ofList`: the values and the keys of a list
* `Dictionary.entries_eq`: a dictionary is told by its keys and values
* `Dictionary.values_eq`: each key has one value
* `Dictionary.entries_ofList_map`: the entries of a list where each key tells its value
-/

namespace BlockLang.Dictionary

variable {κ α : Type} [DecidableEq κ]

/-- A key has the value that it has last. -/
theorem find?_ofList (l : List (κ × α)) (key : κ) :
    (ofList l).find? key = (l.reverse.find? fun entry => entry.1 = key).map Prod.snd := by
  induction l using List.reverseRecOn with
  | nil => rfl
  | append_singleton l entry ih =>
    rw [ofList_concat, find?_insert, ih, List.reverse_append, List.reverse_singleton,
      List.singleton_append, List.find?_cons]
    by_cases h : entry.1 = key
    · simp [h]
    · simp [h, Ne.symm h]

/-- The keys stand in the order of their first places. -/
theorem keys_ofList (l : List (κ × α)) : (ofList l).keys = (l.map Prod.fst).eraseDups := by
  -- Induction from the right: the last pair adds its key unless it is there already.
  induction l using List.reverseRecOn with
  | nil => rfl
  | append_singleton l entry ih =>
    rw [ofList_concat, keys_insert, ih, List.map_append, List.eraseDups_append]
    simp only [List.mem_eraseDups]
    split
    · next h => simp_all [List.removeAll]
    · next h => simp_all [List.removeAll, List.eraseDups_cons]

theorem nodup_keys_ofList (l : List (κ × α)) : (ofList l).keys.Nodup := by
  induction l using List.reverseRecOn with
  | nil => exact List.nodup_nil
  | append_singleton l entry ih =>
    rw [ofList_concat]
    exact nodup_keys_insert ih entry.1 entry.2

/-- Where no key is repeated, each entry is found under its key. -/
theorem findEntry_of_mem {l : List (κ × α)} (h : (l.map Prod.fst).Nodup) {entry : κ × α}
    (he : entry ∈ l) : findEntry entry.1 l = some entry.2 := by
  induction l with
  | nil => cases he
  | cons first rest ih =>
    rw [List.map_cons, List.nodup_cons] at h
    rcases List.mem_cons.mp he with rfl | later
    · exact if_pos rfl
    · -- The first entry has another key.
      have other : first.1 ≠ entry.1 := fun same => h.1 (same ▸ List.mem_map_of_mem later)
      exact (if_neg other).trans (ih h.2 later)

theorem filterMap_findEntry (l : List (κ × α)) (h : (l.map Prod.fst).Nodup) :
    ((l.map Prod.fst).filterMap fun key => (findEntry key l).map (key, ·)) = l := by
  have found : ∀ entry ∈ l, (findEntry entry.1 l).map (entry.1, ·) = some entry := by
    intro entry he
    rw [findEntry_of_mem h he]
    rfl
  rw [List.filterMap_map]
  exact (List.filterMap_congr found).trans List.filterMap_some

/-- A dictionary without repeated keys is told by its keys and their values. -/
theorem entries_eq {d : Dictionary κ α} (h : d.keys.Nodup) :
    d.entries = d.keys.filterMap fun key => (d.find? key).map (key, ·) :=
  (filterMap_findEntry d.entries h).symm

/-- A dictionary without repeated keys has one value for each key. -/
theorem values_eq {d : Dictionary κ α} (h : d.keys.Nodup) :
    d.values.map some = d.keys.map d.find? := by
  rw [values, keys, List.map_map, List.map_map]
  exact List.map_congr_left fun entry he => (findEntry_of_mem h he).symm

theorem find?_ofList_map (f : κ → α) {l : List κ} {key : κ} (h : key ∈ l) :
    (ofList (l.map fun k => (k, f k))).find? key = some (f key) := by
  induction l using List.reverseRecOn with
  | nil => cases h
  | append_singleton l last ih =>
    rw [List.map_append, List.map_singleton, ofList_concat, find?_insert]
    split
    · next same => rw [same]
    · next other => exact ih (by simpa [other] using h)

/-- Where each key tells its value, every key stands once, at its first place. -/
theorem entries_ofList_map (f : κ → α) (l : List κ) :
    (ofList (l.map fun k => (k, f k))).entries = l.eraseDups.map fun k => (k, f k) := by
  have keys : (ofList (l.map fun k => (k, f k))).keys = l.eraseDups := by
    simp [keys_ofList, Function.comp_def]
  have values : ∀ k ∈ l.eraseDups,
      ((ofList (l.map fun k => (k, f k))).find? k).map (k, ·) = some (k, f k) := by
    intro k hk
    rw [find?_ofList_map f (List.mem_eraseDups.mp hk)]
    rfl
  rw [entries_eq (nodup_keys_ofList _), keys, List.filterMap_congr values,
    List.filterMap_eq_map']

end BlockLang.Dictionary
