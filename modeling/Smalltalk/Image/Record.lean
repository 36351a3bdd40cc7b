import Smalltalk.Image.Header
import Smalltalk.Object.Format

namespace Smalltalk

/-! The objects of an image follow each other as records without gaps. A record
has one of three headers, which differ in where the class stands and how long the
body may be, and then the words of the body. -/

/-- What stands before the words of an object. The last word of every header is
the base word; the format, the identity hash and, in the shorter headers, the
number of words are taken from it. -/
inductive RecordHeader where
  /-- The base word alone, which also holds the number of the class. -/
  | short (base : UInt32)
  /-- The old address of the class and the base word. -/
  | withClass (species base : UInt32)
  /-- The number of words, the old address of the class and the base word. -/
  | withSize (size species base : UInt32)
deriving DecidableEq

namespace RecordHeader

/-- The number of words of a header. -/
def wordCount : RecordHeader → Nat
  | short _ => 1
  | withClass _ _ => 2
  | withSize _ _ _ => 3

theorem wordCount_pos (header : RecordHeader) : 0 < header.wordCount := by
  cases header <;> simp [wordCount]

def base : RecordHeader → UInt32
  | short base => base
  | withClass _ base => base
  | withSize _ _ base => base

/-- The number of words of the body. What is stored is one more, for the base
word. -/
def bodyCount : RecordHeader → Nat
  | short base => base.toNat / 4 % 64 - 1
  | withClass _ base => base.toNat / 4 % 64 - 1
  | withSize size _ _ => size.toNat / 4 - 1

def format (header : RecordHeader) : Nat := header.base.toNat / 256 % 16

def hash (header : RecordHeader) : Nat := header.base.toNat / 131072 % 4096

/-- The word from which the class is found: an old address, or for a short header
the entry of the compact classes, which are numbered from one. -/
def speciesWord? (header : RecordHeader) (compactClasses : Array UInt32) : Option UInt32 :=
  match header with
  | short base =>
    let number := base.toNat / 4096 % 32
    if number = 0 then none else compactClasses[number - 1]?
  | withClass species _ => some species
  | withSize _ species _ => some species

end RecordHeader

/-- An object as it stands in an image. -/
structure ImageRecord where
  header : RecordHeader
  body : Array UInt32
deriving DecidableEq

namespace ImageRecord

/-- The number of bytes that a record takes. -/
def size (record : ImageRecord) : Nat := 4 * (record.header.wordCount + record.body.size)

theorem size_pos (record : ImageRecord) : 0 < record.size := by
  have := record.header.wordCount_pos
  unfold size
  omega

/-- The old address of a record that starts at an offset: that of its base
word. -/
def address (record : ImageRecord) (oldBase : UInt32) (offset : Nat) : UInt32 :=
  oldBase + UInt32.ofNat (offset + 4 * (record.header.wordCount - 1))

end ImageRecord

/-! ## Reading a record -/

/-- The part of an image that holds the objects. -/
structure RecordSpace where
  source : ByteSource
  order : ByteOrder
  /-- The place of the first byte. -/
  start : Nat
  /-- The number of bytes. -/
  size : Nat

namespace RecordSpace

/-- A word of the object memory. -/
def wordAt (space : RecordSpace) (offset : Nat) : Except ImageError UInt32 :=
  (space.source.wordAt space.order (space.start + offset)).mapError .unreadable

/-- Accept a header that ends inside the object memory. -/
def checkHeader (space : RecordSpace) (offset : Nat) (header : RecordHeader) :
    Except ImageError RecordHeader :=
  if offset + 4 * header.wordCount ≤ space.size then .ok header
  else .error (.objectOverrun offset 0)

/-- The header at an offset; its kind stands in the low two bits of its first
word. -/
def readHeader (space : RecordSpace) (offset : Nat) : Except ImageError RecordHeader := do
  let first ← space.wordAt offset
  match first.toNat % 4 with
  | 0 =>
    let species ← space.wordAt (offset + 4)
    let base ← space.wordAt (offset + 8)
    space.checkHeader offset (.withSize first species base)
  | 1 =>
    let base ← space.wordAt (offset + 4)
    space.checkHeader offset (.withClass (first - 1) base)
  | 2 => throw (.freeBlock offset)
  | _ => space.checkHeader offset (.short first)

/-- The record at an offset. -/
def readRecord (space : RecordSpace) (offset : Nat) : Except ImageError ImageRecord := do
  let header ← space.readHeader offset
  let bodyOffset := offset + 4 * header.wordCount
  if space.size < bodyOffset + 4 * header.bodyCount then
    throw (.objectOverrun (bodyOffset - 4) header.bodyCount)
  let body ←
    (space.source.wordsAt space.order (space.start + bodyOffset) header.bodyCount).mapError
      .unreadable
  return { header, body }

end RecordSpace

end Smalltalk
