namespace Smalltalk

/-! The cyclic redundancy check of compressed files: division of the bits by a
fixed polynomial over two elements, lowest bit first. -/

namespace Crc32

/-- The polynomial, lowest power in the highest bit. -/
def polynomial : UInt32 := 0xEDB88320

/-- Divide out the lowest bit. -/
def shift (remainder : UInt32) : UInt32 :=
  let rest := remainder >>> (1 : UInt32)
  if remainder % 2 = 1 then rest ^^^ polynomial else rest

/-- Take one more byte into the remainder. -/
def update (remainder : UInt32) (byte : UInt8) : UInt32 :=
  (List.range 8).foldl (fun remainder _ => shift remainder) (remainder ^^^ byte.toUInt32)

/-- The checksum of a sequence of bytes. -/
def checksum (bytes : Array UInt8) : UInt32 :=
  (bytes.foldl update 0xFFFFFFFF) ^^^ 0xFFFFFFFF

example : checksum #[0x31, 0x32, 0x33, 0x34, 0x35, 0x36, 0x37, 0x38, 0x39] = 0xCBF43926 := by
  decide +kernel

end Crc32

end Smalltalk
