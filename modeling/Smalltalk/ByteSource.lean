import Smalltalk.Error

namespace Smalltalk

/-! Images are read from bytes that may stop for more than one reason: a file
simply ends, but compressed data may also turn out to be damaged on the way. -/

/-- Bytes that can be read, and what happens to whoever reads past them. -/
structure ByteSource where
  bytes : Array UInt8
  ending : ReadError
deriving DecidableEq

/-- The order of the bytes of a word. -/
inductive ByteOrder where
  /-- The highest byte comes first. -/
  | big
  /-- The lowest byte comes first. -/
  | little
deriving DecidableEq

namespace ByteOrder

/-- The word whose bytes, from the highest to the lowest, are given. -/
def joinBytes (a b c d : UInt8) : UInt32 :=
  UInt32.ofNat (((a.toNat * 256 + b.toNat) * 256 + c.toNat) * 256 + d.toNat)

/-- The word that four bytes in a row stand for. -/
def word (order : ByteOrder) (a b c d : UInt8) : UInt32 :=
  match order with
  | big => joinBytes a b c d
  | little => joinBytes d c b a

/-- A byte of a word, counted from the lowest. -/
def byteOf (word : UInt32) (place : Nat) : UInt8 := UInt8.ofNat (word.toNat >>> (8 * place))

/-- The four bytes of a word in a row. -/
def bytes (order : ByteOrder) (word : UInt32) : List UInt8 :=
  let ascending := [byteOf word 0, byteOf word 1, byteOf word 2, byteOf word 3]
  match order with
  | big => ascending.reverse
  | little => ascending

@[simp] theorem length_bytes (order : ByteOrder) (word : UInt32) :
    (order.bytes word).length = 4 := by
  cases order <;> rfl

theorem joinBytes_byteOf (word : UInt32) :
    joinBytes (byteOf word 3) (byteOf word 2) (byteOf word 1) (byteOf word 0) = word := by
  have bounded := word.toNat_lt
  apply UInt32.toNat_inj.mp
  simp only [joinBytes, byteOf, Nat.shiftRight_eq_div_pow, UInt8.toNat_ofNat',
    UInt32.toNat_ofNat']
  omega

example : big.word 0 0 25 102 = 6502 := by decide
example : little.bytes 6502 = [102, 25, 0, 0] := by decide

end ByteOrder

namespace ByteSource

/-- Bytes that simply end. -/
def ofBytes (bytes : Array UInt8) : ByteSource := { bytes, ending := .endOfData }

/-- Nothing can be read. -/
def failing (reason : ReadError) : ByteSource := { bytes := #[], ending := reason }

/-- The word at a place, if all its bytes are there. -/
def word? (source : ByteSource) (order : ByteOrder) (place : Nat) : Option UInt32 := do
  let a ← source.bytes[place]?
  let b ← source.bytes[place + 1]?
  let c ← source.bytes[place + 2]?
  let d ← source.bytes[place + 3]?
  return order.word a b c d

/-- The word at a place, which has to be there. -/
def wordAt (source : ByteSource) (order : ByteOrder) (place : Nat) : Except ReadError UInt32 :=
  match source.word? order place with
  | some word => .ok word
  | none => .error source.ending

/-- As many words in a row as asked for. -/
def wordsAt (source : ByteSource) (order : ByteOrder) (place count : Nat) :
    Except ReadError (Array UInt32) :=
  if place + 4 * count ≤ source.bytes.size then
    .ok (Array.ofFn fun index : Fin count => (source.word? order (place + 4 * index)).getD 0)
  else
    .error source.ending

/-- Go on to a place past the header, which may lie behind the last byte. -/
def skipTo (source : ByteSource) (place : Nat) : Except ReadError Unit :=
  if place ≤ source.bytes.size then .ok ()
  else if source.ending = .endOfData then .error .endOfHeader
  else .error source.ending

end ByteSource

end Smalltalk
