import BlockLang.Text.Utf8

/-!
# Decoding an encoded text

What a text is encoded to is read back. The first byte of a character tells how many bytes follow,
and its bounds and those of the second byte leave out what no character needs, so that each of the
four forms of an encoding is read as the character that it was made from.

## Main results

* `firstSegment_encode`: the encoding of a character is read as this character
* `decode_toUTF8`: the encoding of a text is read as this text
-/

namespace BlockLang.Text

variable {c : Char} {bytes : List UInt8}

/-- The segments behind a first byte whose sequence is complete. -/
theorem segmentsFrom_length_append (taken bytes : List UInt8) :
    segmentsFrom taken.length (taken ++ bytes) = segments bytes := by
  induction taken with
  | nil => rfl
  | cons b taken ih => exact ih

theorem toNat_byte {n : Nat} (h : n < 256) : (UInt8.ofNat n).toNat = n := by
  rw [UInt8.toNat_ofNat', Nat.mod_eq_of_lt h]

/-! ## The four forms of an encoding -/

theorem followSequence_cons {code length low high n : Nat} {ranges : List (Nat × Nat)}
    (fits : n < 256) (h : low ≤ n ∧ n ≤ high) :
    followSequence code length ((low, high) :: ranges) (UInt8.ofNat n :: bytes) =
      followSequence (code * 64 + n % 64) (length + 1) ranges bytes := by
  rw [followSequence, toNat_byte fits, if_pos h]

theorem firstSegment_one {n : Nat} (h : n ≤ 0x7F) :
    firstSegment (UInt8.ofNat n) bytes = ⟨1, .ok (Char.ofNat n)⟩ := by
  rw [firstSegment, toNat_byte (by omega)]
  exact if_pos (by omega)

theorem firstSegment_two {n : Nat} (low : 0x7F < n) (high : n ≤ 0x7FF) :
    firstSegment (UInt8.ofNat (n / 64 % 32 + 0xC0)) (UInt8.ofNat (n % 64 + 0x80) :: bytes) =
      ⟨2, .ok (Char.ofNat n)⟩ := by
  have code : (n / 64 % 32 + 0xC0 - 0xC0) * 64 + (n % 64 + 0x80) % 64 = n := by omega
  rw [firstSegment, toNat_byte (by omega)]
  dsimp only
  rw [if_neg (by omega), if_neg (by omega), if_pos (by omega)]
  rw [followSequence_cons (by omega) (by omega), code]
  rfl

theorem firstSegment_three {n : Nat} (low : 0x7FF < n) (high : n ≤ 0xFFFF)
    (valid : n < 0xD800 ∨ 0xDFFF < n) :
    firstSegment (UInt8.ofNat (n / 4096 % 16 + 0xE0))
        (UInt8.ofNat (n / 64 % 64 + 0x80) :: UInt8.ofNat (n % 64 + 0x80) :: bytes) =
      ⟨3, .ok (Char.ofNat n)⟩ := by
  have code : ((n / 4096 % 16 + 0xE0 - 0xE0) * 64 + (n / 64 % 64 + 0x80) % 64) * 64 +
      (n % 64 + 0x80) % 64 = n := by omega
  rw [firstSegment, toNat_byte (by omega)]
  dsimp only
  rw [if_neg (by omega), if_neg (by omega), if_neg (by omega), if_pos (by omega)]
  -- The second byte is bounded below where two bytes would do, and above before the surrogates.
  generalize bounds : ite (_ = 0xE0) _ _ = second
  obtain ⟨least, most⟩ := second
  have fits : least ≤ n / 64 % 64 + 0x80 ∧ n / 64 % 64 + 0x80 ≤ most := by
    split at bounds
    · cases bounds
      omega
    · split at bounds <;> cases bounds <;> omega
  rw [followSequence_cons (by omega) fits, followSequence_cons (by omega) (by omega), code]
  rfl

theorem firstSegment_four {n : Nat} (low : 0xFFFF < n) (high : n < 0x110000) :
    firstSegment (UInt8.ofNat (n / 262144 % 8 + 0xF0))
        (UInt8.ofNat (n / 4096 % 64 + 0x80) :: UInt8.ofNat (n / 64 % 64 + 0x80) ::
          UInt8.ofNat (n % 64 + 0x80) :: bytes) =
      ⟨4, .ok (Char.ofNat n)⟩ := by
  have code : (((n / 262144 % 8 + 0xF0 - 0xF0) * 64 + (n / 4096 % 64 + 0x80) % 64) * 64 +
      (n / 64 % 64 + 0x80) % 64) * 64 + (n % 64 + 0x80) % 64 = n := by omega
  rw [firstSegment, toNat_byte (by omega)]
  dsimp only
  rw [if_neg (by omega), if_neg (by omega), if_neg (by omega), if_neg (by omega),
    if_pos (by omega)]
  -- The second byte is bounded below where three bytes would do, and above at the last code point.
  generalize bounds : ite (_ = 0xF0) _ _ = second
  obtain ⟨least, most⟩ := second
  have fits : least ≤ n / 4096 % 64 + 0x80 ∧ n / 4096 % 64 + 0x80 ≤ most := by
    split at bounds
    · cases bounds
      omega
    · split at bounds <;> cases bounds <;> omega
  rw [followSequence_cons (by omega) fits, followSequence_cons (by omega) (by omega),
    followSequence_cons (by omega) (by omega), code]
  rfl

/-- The encoding of a character is read as this character, whatever follows. -/
theorem firstSegment_encode (c : Char) (bytes : List UInt8) :
    ∃ b rest, String.utf8EncodeChar c = b :: rest ∧
      firstSegment b (rest ++ bytes) = ⟨rest.length + 1, .ok c⟩ := by
  have valid : c.val.toNat < 0xD800 ∨ 0xDFFF < c.val.toNat ∧ c.val.toNat < 0x110000 := c.valid
  have same : Char.ofNat c.val.toNat = c := c.ofNat_toNat
  unfold String.utf8EncodeChar
  dsimp only
  split
  · next one => exact ⟨_, _, rfl, (firstSegment_one one).trans (by rw [same]; rfl)⟩
  split
  · next one two =>
    exact ⟨_, _, rfl, (firstSegment_two (by omega) two).trans (by rw [same]; rfl)⟩
  split
  · next two three =>
    exact ⟨_, _, rfl, (firstSegment_three (by omega) three (by omega)).trans (by rw [same]; rfl)⟩
  · next three =>
    exact ⟨_, _, rfl, (firstSegment_four (by omega) (by omega)).trans (by rw [same]; rfl)⟩

/-- The segment of an encoded character comes first. -/
theorem segments_encode_append (c : Char) (bytes : List UInt8) :
    segments (String.utf8EncodeChar c ++ bytes) =
      ⟨(String.utf8EncodeChar c).length, .ok c⟩ :: segments bytes := by
  obtain ⟨b, rest, encoded, first⟩ := firstSegment_encode c bytes
  rw [encoded, List.cons_append, segments, segmentsFrom, first]
  exact congrArg _ (segmentsFrom_length_append rest bytes)

theorem readSegments_encode (all : Array UInt8) (offset : Nat) (cs : List Char) :
    readSegments all offset (segments (cs.flatMap String.utf8EncodeChar)) = .ok cs := by
  induction cs generalizing offset with
  | nil => rfl
  | cons c cs ih =>
    rw [List.flatMap_cons, segments_encode_append, readSegments]
    simp [ih, Except.map]

/-- The encoding of a text is read as this text. -/
theorem decode_toUTF8 (text : String) : decode text.toUTF8.data.toList = .ok text.toList := by
  have encoded : text.toUTF8.data.toList = text.toList.flatMap String.utf8EncodeChar := by
    rw [String.toUTF8_eq_toByteArray, ← String.utf8Encode_toList]
    simp [List.utf8Encode]
  rw [encoded]
  exact readSegments_encode _ 0 text.toList

end BlockLang.Text
