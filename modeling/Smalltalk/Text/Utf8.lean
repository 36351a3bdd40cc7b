namespace Smalltalk

/-! Bytes are shown as text by reading them as UTF-8. What is not well formed is
shown by a replacement character, one for each longest piece that could have
started a character. -/

namespace Utf8

/-- The replacement character. -/
def replacement : Char := '\uFFFD'

/-- What the first byte of a longer sequence says: how many bytes follow, the
bits it contributes and the range of the second byte, which rules out overlong
forms, surrogates and numbers that are no code points. -/
structure Lead where
  count : Nat
  bits : Nat
  low : Nat := 0x80
  high : Nat := 0xBF
deriving DecidableEq

def lead? (byte : UInt8) : Option Lead :=
  let code := byte.toNat
  if code < 0xC2 then none
  else if code < 0xE0 then some { count := 1, bits := code - 0xC0 }
  else if code = 0xE0 then some { count := 2, bits := 0, low := 0xA0 }
  else if code = 0xED then some { count := 2, bits := 0xD, high := 0x9F }
  else if code < 0xF0 then some { count := 2, bits := code - 0xE0 }
  else if code = 0xF0 then some { count := 3, bits := 0, low := 0x90 }
  else if code < 0xF4 then some { count := 3, bits := code - 0xF0 }
  else if code = 0xF4 then some { count := 3, bits := 4, high := 0x8F }
  else none

/-- Read `count` further bytes, the first of them in the given range. Answers
the character and how many bytes belong to it. -/
def continuation (bits low high : Nat) : (count : Nat) → List UInt8 → Char × Nat
  | 0, _ => (Char.ofNat bits, 0)
  | _ + 1, [] => (replacement, 0)
  | count + 1, byte :: rest =>
    if low ≤ byte.toNat ∧ byte.toNat ≤ high then
      let (character, used) := continuation (bits * 64 + byte.toNat % 64) 0x80 0xBF count rest
      (character, used + 1)
    else
      (replacement, 0)

/-- The first character and how many bytes after the first belong to it. -/
def first (byte : UInt8) (rest : List UInt8) : Char × Nat :=
  if byte.toNat < 0x80 then (Char.ofNat byte.toNat, 0)
  else
    match lead? byte with
    | none => (replacement, 0)
    | some lead => continuation lead.bits lead.low lead.high lead.count rest

/-- The characters of a sequence of bytes. -/
def characters : List UInt8 → List Char
  | [] => []
  | byte :: rest =>
    let (character, used) := first byte rest
    character :: characters (rest.drop used)
termination_by bytes => bytes.length
decreasing_by
  simp only [List.length_drop, List.length_cons]
  omega

/-- The text that bytes stand for. -/
def text (bytes : Array UInt8) : String := String.ofList (characters bytes.toList)

/-- The bytes of a text. -/
def encode (text : String) : Array UInt8 := text.toUTF8.data

example : characters [104, 105] = ['h', 'i'] := by decide +kernel
example : characters [0xC3, 0xA9, 0xC3] = ['é', replacement] := by decide +kernel
example : characters [0xED, 0xA0, 0x80] = [replacement, replacement, replacement] := by
  decide +kernel
example : characters [0xE2, 0x82, 0x41] = [replacement, 'A'] := by decide +kernel

end Utf8

end Smalltalk
