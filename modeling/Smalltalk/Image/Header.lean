import Smalltalk.ByteSource

namespace Smalltalk

/-! An image starts with a mark that also shows the order of its bytes, and eight
words about how it was saved. Further words may follow before the objects. -/

/-- What an image says about itself. -/
structure ImageHeader where
  headerSize : UInt32
  /-- The number of bytes that the objects take. -/
  endOfMemory : UInt32
  /-- The address that the first byte of the objects had when it was saved. -/
  oldBase : UInt32
  /-- The old address of the special objects array. -/
  specialObjects : UInt32
  lastHash : UInt32
  windowSize : UInt32
  fullScreen : UInt32
  extraMemory : UInt32
deriving DecidableEq, Inhabited

namespace ImageHeader

/-- The first word of every image. -/
def mark : UInt32 := 6502

/-- The number of bytes of the mark and the eight words. -/
def prefixSize : Nat := 36

/-- Width and height of the saved window. -/
def windowExtent (header : ImageHeader) : UInt32 × UInt32 :=
  (header.windowSize >>> (16 : UInt32), header.windowSize &&& (0xFFFF : UInt32))

/-- The place of the first object. -/
def firstObject (header : ImageHeader) : Nat := max header.headerSize.toNat prefixSize

/-- The order of the bytes, as the mark shows it. -/
def readOrder (source : ByteSource) : Except ImageError ByteOrder :=
  match source.word? .big 0 with
  | none => .error (.unreadable source.ending)
  | some word =>
    if word = mark then .ok .big
    else if source.word? .little 0 = some mark then .ok .little
    else .error (.badMagic word)

/-- One of the eight words. -/
def readWord (source : ByteSource) (order : ByteOrder) (index : Nat) : Except ImageError UInt32 :=
  (source.wordAt order (4 * (index + 1))).mapError .unreadable

/-- Read the header and find the first object. -/
def read (source : ByteSource) (order : ByteOrder) : Except ImageError ImageHeader := do
  let header : ImageHeader :=
    { headerSize := ← readWord source order 0
      endOfMemory := ← readWord source order 1
      oldBase := ← readWord source order 2
      specialObjects := ← readWord source order 3
      lastHash := ← readWord source order 4
      windowSize := ← readWord source order 5
      fullScreen := ← readWord source order 6
      extraMemory := ← readWord source order 7 }
  match source.skipTo header.firstObject with
  | .ok () => return header
  | .error reason => throw (.unreadable reason)

end ImageHeader

end Smalltalk
