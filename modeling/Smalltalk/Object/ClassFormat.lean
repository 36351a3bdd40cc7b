import Smalltalk.Value
import Smalltalk.Object.Format

namespace Smalltalk

/-! A class describes its instances in one small integer: the number of named
fields, stored one higher and split over two places, and between them the
format code of the instances. -/

/-- The instance description of a class as the integer that stores it. -/
structure ClassFormat where
  bits : Int
deriving DecidableEq

namespace ClassFormat

/-- Pack a field count below 255 and a format code; larger ones are cut. -/
def pack (fieldCount format : Nat) : ClassFormat :=
  ⟨((fieldCount + 1) % 64 * 2 + (fieldCount + 1) / 64 % 4 * 65536 + format % 16 * 128 : Nat)⟩

/-- The number of named fields of an instance. -/
def fieldCount (format : ClassFormat) : Nat :=
  (format.bits / 2 % 64 + format.bits / 65536 % 4 * 64 - 1).toNat

def instanceFormat (format : ClassFormat) : Nat := (format.bits / 128 % 16).toNat

/-- Whether instances have a part that is reached by index. -/
def isIndexable (format : ClassFormat) : Bool :=
  let code := format.instanceFormat
  code = Format.indexable ∨ code = Format.fixedIndexable ∨ code = Format.weak ∨ 6 ≤ code

/-- The description as the value of a class field. -/
def value (format : ClassFormat) : Value := .ofInt format.bits

@[simp] theorem instanceFormat_pack (fieldCount format : Nat) :
    (pack fieldCount format).instanceFormat = format % 16 := by
  simp [pack, instanceFormat]
  omega

theorem fieldCount_pack {count : Nat} (format : Nat) (fits : count < 255) :
    (pack count format).fieldCount = count := by
  simp [pack, fieldCount]
  omega

example : (pack 3 Format.fixedIndexable).isIndexable = true := by decide
example : (pack 100 Format.fixed).isIndexable = false := by decide

end ClassFormat

end Smalltalk
