import BlockLang.Text.Quoted

/-!
# UTF-8

Bytes are read as UTF-8 one sequence at a time. Where they are not well-formed, the malformed part
is the longest beginning of a well-formed sequence that stands there, or a single byte if none does.

## Main definitions

* `Malformation`: what is wrong with a malformed part
* `Segment`: a character or a malformed part, and how many bytes it takes
* `segments bytes`: the segments of some bytes
* `decode bytes`: the characters, or the first malformed part
* `decodeLossy bytes`: the characters, a replacement character standing for each malformed part
-/

namespace BlockLang.Text

/-- What is wrong with a malformed part. -/
inductive Malformation
  | start
  | continuation
  | endOfData
  deriving DecidableEq, Repr

namespace Malformation

/-- The message about a malformed part. -/
def message : Malformation → String
  | start => "invalid start byte"
  | continuation => "invalid continuation byte"
  | endOfData => "unexpected end of data"

end Malformation

/-- A character or a malformed part, and how many bytes it takes. -/
structure Segment where
  length : Nat
  content : Except Malformation Char
  deriving Repr

/-- Follows a sequence whose continuation bytes lie in the given ranges; `code` was read from its
first `length` bytes. -/
def followSequence (code length : Nat) : List (Nat × Nat) → List UInt8 → Segment
  | [], _ => ⟨length, .ok (Char.ofNat code)⟩
  | _ :: _, [] => ⟨length, .error .endOfData⟩
  | (low, high) :: ranges, b :: bytes =>
    if low ≤ b.toNat ∧ b.toNat ≤ high then
      followSequence (code * 64 + b.toNat % 64) (length + 1) ranges bytes
    else ⟨length, .error .continuation⟩

/-- The segment that a byte begins. Continuation bytes are bounded so that no sequence is longer
than its character needs, and none stands for a surrogate or for no code point at all. -/
def firstSegment (b : UInt8) (bytes : List UInt8) : Segment :=
  let n := b.toNat
  let any := (0x80, 0xBF)
  if n < 0x80 then ⟨1, .ok (Char.ofNat n)⟩
  else if n < 0xC2 then ⟨1, .error .start⟩
  else if n < 0xE0 then followSequence (n - 0xC0) 1 [any] bytes
  else if n < 0xF0 then
    let second := if n = 0xE0 then (0xA0, 0xBF) else if n = 0xED then (0x80, 0x9F) else any
    followSequence (n - 0xE0) 1 [second, any] bytes
  else if n < 0xF5 then
    let second := if n = 0xF0 then (0x90, 0xBF) else if n = 0xF4 then (0x80, 0x8F) else any
    followSequence (n - 0xF0) 1 [second, any, any] bytes
  else ⟨1, .error .start⟩

/-- The segments of some bytes, of which the first `skip` are taken already. -/
def segmentsFrom : Nat → List UInt8 → List Segment
  | _, [] => []
  | skip + 1, _ :: bytes => segmentsFrom skip bytes
  | 0, b :: bytes =>
    let segment := firstSegment b bytes
    segment :: segmentsFrom (segment.length - 1) bytes

/-- The segments of some bytes. -/
def segments (bytes : List UInt8) : List Segment := segmentsFrom 0 bytes

/-- A malformed part: where it is, its first byte, and what is wrong. -/
structure DecodeError where
  offset : Nat
  length : Nat
  firstByte : UInt8
  malformation : Malformation
  deriving DecidableEq, Repr

namespace DecodeError

/-- The message about a malformed part: a single byte is shown. -/
def message (e : DecodeError) : String :=
  "'utf-8' codec can't decode " ++
    (if e.length = 1 then
      "byte 0x" ++ String.ofList (hexDigits 2 e.firstByte.toNat) ++ " in position " ++
        toString e.offset
    else
      "bytes in position " ++ toString e.offset ++ "-" ++ toString (e.offset + e.length - 1)) ++
    ": " ++ e.malformation.message

end DecodeError

/-- The characters of segments, of which the first begins at `offset` of `bytes`, or the first
malformed part. -/
def readSegments (bytes : Array UInt8) : Nat → List Segment → Except DecodeError (List Char)
  | _, [] => .ok []
  | offset, segment :: rest =>
    match segment.content with
    | .ok c => (readSegments bytes (offset + segment.length) rest).map (c :: ·)
    | .error m => .error ⟨offset, segment.length, bytes.getD offset 0, m⟩

/-- The characters that some bytes stand for, or the first malformed part. -/
def decode (bytes : List UInt8) : Except DecodeError (List Char) :=
  readSegments bytes.toArray 0 (segments bytes)

/-- The characters that some bytes stand for, a replacement character standing for each malformed
part. -/
def decodeLossy (bytes : List UInt8) : List Char :=
  (segments bytes).map fun segment =>
    match segment.content with
    | .ok c => c
    | .error _ => '\ufffd'

end BlockLang.Text
