namespace Smalltalk

/-! Numbers and bytes written with sixteen digits, in lower case. -/

namespace Hexadecimal

/-- The digits of a number, padded with zeros to `width`. -/
def ofNat (n width : Nat) : String :=
  let digits := Nat.toDigits 16 n
  String.ofList (List.replicate (width - digits.length) '0' ++ digits)

/-- The digits of a number behind their mark. -/
def marked (n width : Nat) : String := "0x" ++ ofNat n width

/-- Bytes as two digits each. -/
def ofBytes (bytes : Array UInt8) : String :=
  bytes.foldl (fun text byte => text ++ ofNat byte.toNat 2) ""

/-- What a digit stands for; other characters stand for nothing. -/
def digit? (c : Char) : Option Nat :=
  if '0' ≤ c ∧ c ≤ '9' then some (c.toNat - '0'.toNat)
  else if 'a' ≤ c ∧ c ≤ 'f' then some (c.toNat - 'a'.toNat + 10)
  else none

/-- The number that digits stand for. -/
def toNat? (text : String) : Option Nat :=
  text.toList.foldlM (fun n c => (digit? c).map (16 * n + ·)) 0

/-- The bytes that pairs of digits stand for. -/
def pairs? : List Char → Array UInt8 → Option (Array UInt8)
  | [], bytes => some bytes
  | [_], _ => none
  | high :: low :: rest, bytes => do
    pairs? rest (bytes.push (UInt8.ofNat (16 * (← digit? high) + (← digit? low))))

/-- The bytes that a text of digits stands for. -/
def toBytes? (text : String) : Option (Array UInt8) := pairs? text.toList #[]

example : marked 6502 8 = "0x00001966" := by decide +kernel
example : toBytes? "00ff" = some #[0, 255] := by decide +kernel
example : toNat? "1f" = some 31 := by decide +kernel

end Hexadecimal

end Smalltalk
