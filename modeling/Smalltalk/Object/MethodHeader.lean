import Smalltalk.Value

namespace Smalltalk

/-! The first literal of a compiled method is a small integer that packs the
shape of its frame: from the low end nine bits of primitive number, eight of
literal count, the large-frame flag, six bits of temporaries, four of arguments
and the two high bits of the primitive number. -/

/-- The header of a compiled method as the integer that stores it. -/
structure MethodHeader where
  bits : Int
deriving DecidableEq

namespace MethodHeader

/-- Pack the parts of a header; each part is cut to the bits it has. -/
def pack (args temps literals primitive : Nat) (large : Bool) : MethodHeader :=
  ⟨(primitive % 512 + literals % 256 * 512 + large.toNat * 131072
    + temps % 64 * 262144 + args % 16 * 16777216
    + primitive / 512 % 4 * 268435456 : Nat)⟩

def literalCount (header : MethodHeader) : Nat := (header.bits / 512 % 256).toNat

def argumentCount (header : MethodHeader) : Nat := (header.bits / 16777216 % 16).toNat

/-- The number of temporaries, arguments included. -/
def temporaryCount (header : MethodHeader) : Nat := (header.bits / 262144 % 64).toNat

def needsLargeFrame (header : MethodHeader) : Bool := header.bits / 131072 % 2 = 1

def primitive (header : MethodHeader) : Nat :=
  (header.bits % 512 + header.bits / 268435456 % 4 * 512).toNat

/-- The header as the value of a literal. -/
def value (header : MethodHeader) : Value := .ofInt header.bits

/-- Byte offset of the first bytecode inside a method, counted from one and
past the header and the literals. -/
def firstPc (header : MethodHeader) : Int := (header.literalCount + 1) * 4 + 1

/-! Every part reads back, cut to its width. -/

@[simp] theorem literalCount_pack (args temps literals primitive : Nat) (large : Bool) :
    (pack args temps literals primitive large).literalCount = literals % 256 := by
  cases large <;> simp [pack, literalCount] <;> omega

@[simp] theorem argumentCount_pack (args temps literals primitive : Nat) (large : Bool) :
    (pack args temps literals primitive large).argumentCount = args % 16 := by
  cases large <;> simp [pack, argumentCount] <;> omega

@[simp] theorem temporaryCount_pack (args temps literals primitive : Nat) (large : Bool) :
    (pack args temps literals primitive large).temporaryCount = temps % 64 := by
  cases large <;> simp [pack, temporaryCount] <;> omega

@[simp] theorem needsLargeFrame_pack (args temps literals primitive : Nat) (large : Bool) :
    (pack args temps literals primitive large).needsLargeFrame = large := by
  cases large <;> simp [pack, needsLargeFrame] <;> omega

@[simp] theorem primitive_pack (args temps literals primitive : Nat) (large : Bool) :
    (pack args temps literals primitive large).primitive = primitive % 2048 := by
  have split : primitive % 2048 = primitive % 512 + primitive / 512 % 4 * 512 := by omega
  have highBound : primitive / 512 % 4 < 4 := Nat.mod_lt _ (by decide)
  have lowBound : primitive % 512 < 512 := Nat.mod_lt _ (by decide)
  have literalBound : literals % 256 < 256 := Nat.mod_lt _ (by decide)
  have temporaryBound : temps % 64 < 64 := Nat.mod_lt _ (by decide)
  have argumentBound : args % 16 < 16 := Nat.mod_lt _ (by decide)
  have largeBound : large.toNat ≤ 1 := Bool.toNat_le large
  rw [split]
  simp only [pack, MethodHeader.primitive]
  generalize primitive / 512 % 4 = high at *
  generalize primitive % 512 = low at *
  generalize literals % 256 = literalPart at *
  generalize temps % 64 = temporaryPart at *
  generalize args % 16 = argumentPart at *
  generalize large.toNat = largePart at *
  have lowReads : (low + literalPart * 512 + largePart * 131072 + temporaryPart * 262144
      + argumentPart * 16777216 + high * 268435456) % 512 = low := by omega
  have highReads : (low + literalPart * 512 + largePart * 131072 + temporaryPart * 262144
      + argumentPart * 16777216 + high * 268435456) / 268435456 = high := by omega
  generalize low + literalPart * 512 + largePart * 131072 + temporaryPart * 262144
      + argumentPart * 16777216 + high * 268435456 = packed at *
  omega

end MethodHeader

end Smalltalk
