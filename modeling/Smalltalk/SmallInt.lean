import Smalltalk.Word32

namespace Smalltalk

/-! Small integers are the 31-bit signed integers that a tagged word can hold
without an object. Arithmetic on them is exact: an operation answers the
mathematical result when it is again a small integer, and nothing otherwise. -/

/-- The least small integer. -/
def SmallInt.minimum : Int := -1073741824

/-- The greatest small integer. -/
def SmallInt.maximum : Int := 1073741823

/-- An integer that fits a tagged word. -/
structure SmallInt where
  val : Int
  lower : SmallInt.minimum ≤ val
  upper : val ≤ SmallInt.maximum
deriving DecidableEq, Repr

namespace SmallInt

@[ext] theorem ext {a b : SmallInt} (equal : a.val = b.val) : a = b := by
  cases a
  cases b
  cases equal
  rfl

/-- The small integer zero, which also stands for every count that does not
fit a tagged word. -/
def zero : SmallInt := ⟨0, by decide, by decide⟩

instance : Inhabited SmallInt := ⟨zero⟩

/-- The small integer equal to `n`, if there is one. -/
def ofInt? (n : Int) : Option SmallInt :=
  if inside : minimum ≤ n ∧ n ≤ maximum then some ⟨n, inside.1, inside.2⟩ else none

@[simp] theorem ofInt?_val (n : SmallInt) : ofInt? n.val = some n := by
  simp [ofInt?, n.lower, n.upper]

theorem ofInt?_eq_some {n : Int} {small : SmallInt} :
    ofInt? n = some small ↔ small.val = n := by
  constructor
  · intro found
    unfold ofInt? at found
    split at found
    · cases found
      rfl
    · cases found
  · rintro rfl
    exact ofInt?_val small

theorem ofInt?_eq_none {n : Int} :
    ofInt? n = none ↔ n < minimum ∨ maximum < n := by
  unfold ofInt?
  split
  · rename_i inside
    simp
    omega
  · rename_i outside
    simp
    omega

end SmallInt

/-! ## Checked arithmetic

The operations answer small integers or nothing. Sums, differences and quotients are worked out
with more bits than a word has, where none is lost. A product and a shift to the left stay in a
word, and are found to be cut off when undoing them does not lead back. -/

namespace Checked

/-- `n` itself when it is in the range of small integers. -/
def inRange? (n : Int) : Option Int :=
  if SmallInt.minimum ≤ n ∧ n ≤ SmallInt.maximum then some n else none

/-- The product of two words, unless it does not divide back. -/
def multiplyWords (a b : Int32) : Except WordFault (Option Int) := do
  let product := a * b
  if b ≠ 0 then
    let back ← Word32.quotient product b
    if back ≠ a ∨ (a = -1 ∧ b = .minValue) then
      return none
  return inRange? product.toInt

/-- A shift to the left by a positive count is exact or fails; a shift to the right rounds
toward negative infinity. -/
def shiftWords (word count : Int32) : Except WordFault (Option Int) := do
  if count < 0 then
    let shifted ← Word32.shiftRight word (min count.toInt.natAbs 31)
    return some shifted.toInt
  if 31 ≤ count then
    return if word = 0 then some 0 else none
  let shifted ← Word32.shiftLeft word count.toInt.toNat
  let back ← Word32.shiftRight shifted count.toInt.toNat
  if back ≠ word then
    return none
  return inRange? shifted.toInt

/-- The quotient of two words when the division leaves no remainder. -/
def divideWords (a b : Int32) : Except WordFault (Option Int) := do
  if b = 0 then
    return none
  let rest ← Word32.remainder a b
  if rest ≠ 0 then
    return none
  return inRange? (a.toInt.tdiv b.toInt)

/-- What an operation on words answers to integers that fit words. After a fault there is no
answer. -/
def onWords (operation : Int32 → Int32 → Except WordFault (Option Int)) (a b : Int) : Option Int :=
  match operation (.ofInt a) (.ofInt b) with
  | .ok result => result
  | .error _ => none

def add (a b : Int) : Option Int := inRange? (a + b)

def sub (a b : Int) : Option Int := inRange? (a - b)

def mul : Int → Int → Option Int := onWords multiplyWords

def shift : Int → Int → Option Int := onWords shiftWords

/-- The quotient rounded toward negative infinity. -/
def div (a b : Int) : Option Int :=
  if b = 0 then
    none
  else
    let quotient := a.tdiv b
    inRange? (if a.tmod b ≠ 0 ∧ (decide (a < 0) ≠ decide (b < 0)) then quotient - 1 else quotient)

/-- The remainder that goes with `div`; it has the sign of the divisor. -/
def mod (a b : Int) : Option Int := do
  let quotient ← div a b
  inRange? (a - quotient * b)

/-- The quotient rounded toward zero. -/
def quo (a b : Int) : Option Int :=
  if b = 0 then none else inRange? (a.tdiv b)

/-- The quotient when the division leaves no remainder. -/
def exactQuotient : Int → Int → Option Int := onWords divideWords

/-- Bitwise operations on two's complement; they never leave the range. -/
def bitAnd (a b : Int) : Option Int :=
  some (Int32.ofInt a &&& Int32.ofInt b).toInt

def bitOr (a b : Int) : Option Int :=
  some (Int32.ofInt a ||| Int32.ofInt b).toInt

def bitXor (a b : Int) : Option Int :=
  some (Int32.ofInt a ^^^ Int32.ofInt b).toInt

theorem inRange?_eq_some {n result : Int} :
    inRange? n = some result ↔
      result = n ∧ SmallInt.minimum ≤ n ∧ n ≤ SmallInt.maximum := by
  unfold inRange?
  split <;> simp_all
  · exact eq_comm

example : add 1073741823 1 = none := by decide
example : div (-7) 2 = some (-4) := by decide
example : mod 7 (-2) = some (-1) := by decide
example : quo (-7) 2 = some (-3) := by decide
example : exactQuotient 10 3 = none := by decide
example : shift (-16) (-2) = some (-4) := by decide
example : shift 1 30 = none := by decide

end Checked

end Smalltalk
