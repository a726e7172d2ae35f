/-!
# Parts of a text

A text is cut at every occurrence of a mark. It has one part more than there are marks in it, and
the parts with the marks between them make up the text.

## Main definitions

* `parts mark cs`: the parts of a text between marks

## Main results

* `length_parts`: there is one part more than there are marks
* `parts_append_cons`: a mark parts what stands before it from what stands behind it
* `notMem_of_mem_parts`: no part holds the mark
* `intercalate_parts`: parts and marks make up the text
* `parts_intercalate`: texts with marks between them are cut into these texts
-/

namespace BlockLang.Text

/-- The parts of a text between marks. -/
def parts (mark : Char) : List Char → List (List Char)
  | [] => [[]]
  | c :: cs =>
    if c = mark then [] :: parts mark cs
    else
      match parts mark cs with
      | [] => [[c]]
      | part :: rest => (c :: part) :: rest

/-- There is always a first part. -/
theorem exists_parts_eq_cons (mark : Char) (cs : List Char) :
    ∃ part rest, parts mark cs = part :: rest := by
  cases cs with
  | nil => exact ⟨[], [], rfl⟩
  | cons c cs =>
    unfold parts
    split
    · exact ⟨_, _, rfl⟩
    · split <;> exact ⟨_, _, rfl⟩

theorem parts_cons_self (mark : Char) (cs : List Char) :
    parts mark (mark :: cs) = [] :: parts mark cs := by
  simp [parts]

theorem parts_cons_of_ne {mark c : Char} {cs part : List Char} {rest : List (List Char)}
    (hc : c ≠ mark) (h : parts mark cs = part :: rest) :
    parts mark (c :: cs) = (c :: part) :: rest := by
  simp [parts, hc, h]

/-- There is one part more than there are marks. -/
theorem length_parts (mark : Char) (cs : List Char) :
    (parts mark cs).length = cs.count mark + 1 := by
  induction cs with
  | nil => rfl
  | cons c cs ih =>
    by_cases hc : c = mark
    · subst hc
      rw [parts_cons_self, List.length_cons, ih, List.count_cons_self]
    · obtain ⟨part, rest, h⟩ := exists_parts_eq_cons mark cs
      rw [parts_cons_of_ne hc h, List.count_cons_of_ne hc, ← ih, h]
      rfl

/-- A text without the mark is one part. -/
theorem parts_of_notMem {mark : Char} {cs : List Char} (h : mark ∉ cs) : parts mark cs = [cs] := by
  induction cs with
  | nil => rfl
  | cons c cs ih =>
    rw [List.mem_cons, not_or] at h
    exact parts_cons_of_ne (Ne.symm h.1) (ih h.2)

/-- A mark parts what stands before it from what stands behind it. -/
theorem parts_append_cons (mark : Char) (front cs : List Char) :
    parts mark (front ++ mark :: cs) = parts mark front ++ parts mark cs := by
  induction front with
  | nil => exact parts_cons_self mark cs
  | cons c front ih =>
    by_cases hc : c = mark
    · subst hc
      rw [List.cons_append, parts_cons_self, parts_cons_self, ih, List.cons_append]
    · obtain ⟨part, rest, h⟩ := exists_parts_eq_cons mark front
      rw [h, List.cons_append] at ih
      rw [List.cons_append, parts_cons_of_ne hc ih, parts_cons_of_ne hc h, List.cons_append]

/-- The first part ends before the first mark. -/
theorem head?_parts (mark : Char) (cs : List Char) :
    (parts mark cs).head? = some (cs.takeWhile (· ≠ mark)) := by
  induction cs with
  | nil => rfl
  | cons c cs ih =>
    by_cases hc : c = mark
    · simp [hc, parts_cons_self]
    · obtain ⟨part, rest, h⟩ := exists_parts_eq_cons mark cs
      obtain rfl : part = cs.takeWhile (· ≠ mark) := by simpa [h] using ih
      simp [parts_cons_of_ne hc h, hc]

/-- No part holds the mark. -/
theorem notMem_of_mem_parts {mark : Char} {cs part : List Char} (h : part ∈ parts mark cs) :
    mark ∉ part := by
  induction cs generalizing part with
  | nil =>
    rw [parts, List.mem_singleton] at h
    simp [h]
  | cons c cs ih =>
    by_cases hc : c = mark
    · subst hc
      rw [parts_cons_self, List.mem_cons] at h
      rcases h with rfl | h
      · simp
      · exact ih h
    · obtain ⟨first, rest, hp⟩ := exists_parts_eq_cons mark cs
      rw [parts_cons_of_ne hc hp, List.mem_cons] at h
      rcases h with rfl | h
      · have hf : mark ∉ first := ih (by simp [hp])
        simp [hf, Ne.symm hc]
      · exact ih (by simp [hp, h])

/-- Parts and marks make up the text. -/
theorem intercalate_parts (mark : Char) (cs : List Char) :
    [mark].intercalate (parts mark cs) = cs := by
  induction cs with
  | nil => rfl
  | cons c cs ih =>
    obtain ⟨part, rest, h⟩ := exists_parts_eq_cons mark cs
    by_cases hc : c = mark
    · subst hc
      rw [parts_cons_self, h, List.intercalate_cons_cons, ← h, ih]
      rfl
    · rw [parts_cons_of_ne hc h]
      rw [h] at ih
      cases rest with
      | nil => simpa using ih
      | cons next rest =>
        rw [List.intercalate_cons_cons] at ih ⊢
        rw [← ih]
        rfl

/-- Texts with marks between them are cut into these texts, if none of them holds the mark. -/
theorem parts_intercalate {mark : Char} {separator first : String} {others : List String}
    (hs : separator.toList = [mark]) (h : ∀ s ∈ first :: others, mark ∉ s.toList) :
    parts mark (separator.intercalate (first :: others)).toList =
      (first :: others).map String.toList := by
  induction others generalizing first with
  | nil =>
    rw [String.intercalate_singleton, parts_of_notMem (h first List.mem_cons_self)]
    rfl
  | cons next others ih =>
    obtain ⟨free, behind⟩ := List.forall_mem_cons.mp h
    rw [String.intercalate_cons_cons, String.toList_append, String.toList_append, hs,
      List.append_assoc, List.singleton_append, parts_append_cons, parts_of_notMem free, ih behind]
    rfl

end BlockLang.Text
