/-!
# Text from bytes

The text that bytes write in UTF-8. Bytes that write none are shown as the replacement character,
one for each longest stretch that starts a character without finishing it.
-/

namespace SuiteDriver.Text

/-- The character that stands for bytes that write none. -/
def replacement : Char := '\ufffd'

/-- How a character starts: the bits of its first byte, how many bytes follow, and the range of the
second byte. -/
def leadByte? (b : UInt8) : Option (Nat × Nat × UInt8 × UInt8) :=
  if b < 0x80 then some (b.toNat, 0, 0, 0)
  else if 0xC2 ≤ b && b ≤ 0xDF then some (b.toNat - 0xC0, 1, 0x80, 0xBF)
  else if b = 0xE0 then some (0, 2, 0xA0, 0xBF)
  else if b = 0xED then some (0xD, 2, 0x80, 0x9F)
  else if 0xE1 ≤ b && b ≤ 0xEF then some (b.toNat - 0xE0, 2, 0x80, 0xBF)
  else if b = 0xF0 then some (0, 3, 0x90, 0xBF)
  else if 0xF1 ≤ b && b ≤ 0xF3 then some (b.toNat - 0xF0, 3, 0x80, 0xBF)
  else if b = 0xF4 then some (4, 3, 0x80, 0x8F)
  else none

/-- A character that has started: its bits so far, how many bytes are missing, and the range of the
next one. -/
structure Partial where
  bits : Nat
  missing : Nat
  /-- The least next byte. -/
  low : UInt8
  /-- The greatest next byte. -/
  high : UInt8

/-- What a byte that starts a character leads to. -/
def start (b : UInt8) : List Char × Option Partial :=
  match leadByte? b with
  | none => ([replacement], none)
  | some (bits, 0, _, _) => ([Char.ofNat bits], none)
  | some (bits, n, low, high) => ([], some ⟨bits, n, low, high⟩)

/-- The characters that bytes write, from the middle of a character on. -/
def charsFrom : Option Partial → List UInt8 → List Char
  | none, [] => []
  | some _, [] => [replacement]
  | none, b :: bs => (start b).1 ++ charsFrom (start b).2 bs
  | some p, b :: bs =>
    if p.low ≤ b && b ≤ p.high then
      let bits := 64 * p.bits + (b.toNat - 0x80)
      if p.missing ≤ 1 then Char.ofNat bits :: charsFrom none bs
      else charsFrom (some ⟨bits, p.missing - 1, 0x80, 0xBF⟩) bs
    else replacement :: ((start b).1 ++ charsFrom (start b).2 bs)

/-- The text that bytes write. -/
def ofBytes (b : ByteArray) : String := String.ofList (charsFrom none b.toList)

end SuiteDriver.Text
