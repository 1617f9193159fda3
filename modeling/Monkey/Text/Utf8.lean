/-!
# Decoding UTF-8

A file is a sequence of bytes; its text is what they encode.  Bytes that encode no
text have a first fault: a byte that begins no character, a byte that does not
continue the character begun, or an end in the middle of one.

## Main definitions

* `Utf8.Fault` — where the first fault is, and what it is.
* `Utf8.firstFault?` — finds it, byte by byte.
* `Utf8.decode` — the text, or the fault.
-/

namespace Monkey.Text.Utf8

/-- What can be wrong with a byte. -/
inductive Reason
  /-- No character begins with it. -/
  | start
  /-- It does not continue the character that has begun. -/
  | continuation
  /-- The bytes end before the character does. -/
  | ending
  deriving DecidableEq, Repr

/-- A fault: the bytes of the character that has begun, by the first of them, its
offset and their number. -/
structure Fault where
  reason : Reason
  lead : UInt8
  offset : Nat
  length : Nat
  deriving DecidableEq, Repr

/-- A character that has begun: its first byte and where that stands, how many
bytes are owed, and the range of the next one. -/
structure Pending where
  lead : UInt8
  offset : Nat
  owed : Nat
  low : UInt8 := 0x80
  high : UInt8 := 0xbf

/-- What a first byte announces: the number of bytes that follow and the range of
the next one.  The ranges shut out overlong forms, surrogates and all codes above
the last one. -/
def announced (b : UInt8) : Option (Nat × UInt8 × UInt8) :=
  if b < 0x80 then some (0, 0x80, 0xbf)
  else if b < 0xc2 then none
  else if b < 0xe0 then some (1, 0x80, 0xbf)
  else if b = 0xe0 then some (2, 0xa0, 0xbf)
  else if b = 0xed then some (2, 0x80, 0x9f)
  else if b < 0xf0 then some (2, 0x80, 0xbf)
  else if b = 0xf0 then some (3, 0x90, 0xbf)
  else if b < 0xf4 then some (3, 0x80, 0xbf)
  else if b = 0xf4 then some (3, 0x80, 0x8f)
  else none

/-- The first fault of the bytes from an offset on, where a character may have
begun before it. -/
def faultFrom? (offset : Nat) : Option Pending → List UInt8 → Option Fault
  | none, [] => none
  | some p, [] => some ⟨.ending, p.lead, p.offset, offset - p.offset⟩
  | none, b :: bs =>
    match announced b with
    | none => some ⟨.start, b, offset, 1⟩
    | some (0, _, _) => faultFrom? (offset + 1) none bs
    | some (owed, low, high) => faultFrom? (offset + 1) (some ⟨b, offset, owed, low, high⟩) bs
  | some p, b :: bs =>
    if p.low ≤ b && b ≤ p.high then
      if p.owed ≤ 1 then faultFrom? (offset + 1) none bs
      else faultFrom? (offset + 1) (some ⟨p.lead, p.offset, p.owed - 1, 0x80, 0xbf⟩) bs
    else some ⟨.continuation, p.lead, p.offset, offset - p.offset⟩

/-- The first fault of some bytes. -/
def firstFault? (bytes : ByteArray) : Option Fault :=
  faultFrom? 0 none bytes.toList

/-- The text that some bytes encode, or their first fault. -/
def decode (bytes : ByteArray) : Except Fault String :=
  match String.fromUTF8? bytes with
  | some text => .ok text
  | none => .error ((firstFault? bytes).getD ⟨.ending, 0, bytes.size, 0⟩)

/-- What a text encodes to is decoded to that text. -/
@[simp] theorem decode_toUTF8 (text : String) : decode text.toUTF8 = .ok text := by
  simp [decode, String.fromUTF8?, String.toUTF8, text.isValidUTF8, String.fromUTF8]

end Monkey.Text.Utf8
