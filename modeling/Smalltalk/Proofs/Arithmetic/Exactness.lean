import Mathlib.Tactic.NormNum
import Smalltalk.SmallInt

namespace Smalltalk

/-! Arithmetic on small integers answers the mathematical result when it is small, and nothing
otherwise. A product or a shift that words cut off is away from the exact one by a multiple of
the number of words. To undo it gives an operand back, up to a remainder that is smaller than
another small integer, so it cannot give back the one that it was made from. -/

namespace Word32

/-! ## What the operations on words stand for -/

theorem divides_eq_ok {a b : Int32} (divisor : b ≠ 0) (held : ¬(a = .minValue ∧ b = -1)) :
    divides a b = .ok () := by
  rw [divides, if_neg divisor, if_neg held]

theorem quotient_eq_ok {a b : Int32} (divisor : b ≠ 0) (held : ¬(a = .minValue ∧ b = -1)) :
    ∃ result, quotient a b = .ok result ∧ result.toInt = a.toInt.tdiv b.toInt := by
  refine ⟨a / b, by rw [quotient, divides_eq_ok divisor held]; rfl, ?_⟩
  by_cases least : a = .minValue
  · exact Int32.toInt_div_of_ne_right a b fun minus => held ⟨least, minus⟩
  · exact Int32.toInt_div_of_ne_left a b least

theorem remainder_eq_ok {a b : Int32} (divisor : b ≠ 0) (held : ¬(a = .minValue ∧ b = -1)) :
    ∃ result, remainder a b = .ok result ∧ result.toInt = a.toInt.tmod b.toInt :=
  ⟨a % b, by rw [remainder, divides_eq_ok divisor held]; rfl, Int32.toInt_mod a b⟩

theorem shiftLeft_eq_ok (word : Int32) {count : Nat} (narrow : count < 32) :
    ∃ result, shiftLeft word count = .ok result ∧
      result.toInt = (word.toInt * 2 ^ count).bmod 4294967296 := by
  refine ⟨_, if_pos narrow, ?_⟩
  have cut : word.toInt = (word.toBitVec.toNat : Int).bmod 4294967296 :=
    BitVec.toInt_eq_toNat_bmod word.toBitVec
  rw [Int32.toInt_ofBitVec, BitVec.toInt_shiftLeft, cut, Int.bmod_mul_bmod, Nat.shiftLeft_eq]
  norm_cast

theorem shiftRight_eq_ok (word : Int32) {count : Nat} (narrow : count < 32) :
    ∃ result, shiftRight word count = .ok result ∧ result.toInt = word.toInt / 2 ^ count := by
  refine ⟨_, if_pos narrow, ?_⟩
  rw [Int32.toInt_ofBitVec, BitVec.toInt_sshiftRight, Int.shiftRight_eq_div_pow,
    Int32.toInt_toBitVec]
  norm_cast

end Word32

namespace SmallInt

theorem bounds (n : SmallInt) : -1073741824 ≤ n.val ∧ n.val < 1073741824 :=
  ⟨n.lower, Int.lt_of_le_sub_one n.upper⟩

/-- A small integer is its own word. -/
theorem toInt_ofInt (n : SmallInt) : (Int32.ofInt n.val).toInt = n.val := by
  rcases n.bounds with ⟨lower, upper⟩
  apply Int32.toInt_ofInt_of_le <;> omega

theorem ofInt_eq_iff (n : SmallInt) (word : Int32) :
    Int32.ofInt n.val = word ↔ n.val = word.toInt := by
  rw [← Int32.toInt_inj, toInt_ofInt]

end SmallInt

namespace Checked

variable (a b : SmallInt)

/-! ## What is cut off -/

theorem two_pow_pos (count : Nat) : (0 : Int) < 2 ^ count := Int.pow_pos (by decide)

theorem two_pow_le {few many : Nat} (more : few ≤ many) : (2 : Int) ^ few ≤ 2 ^ many := by
  exact_mod_cast Nat.pow_le_pow_right Nat.two_pos more

/-- A number that is cut off is moved by at least the number of words. -/
theorem bmod_eq_of_near {n : Int} (near : (n.bmod 4294967296 - n).natAbs < 4294967296) :
    n.bmod 4294967296 = n := by
  simp only [Int.bmod] at near ⊢
  split at near <;> omega

theorem inRange?_of_bounds {n : Int} (lower : -1073741824 ≤ n) (upper : n < 1073741824) :
    inRange? n = some n :=
  if_pos ⟨lower, Int.le_sub_one_of_lt upper⟩

/-- A small number is not cut off. -/
theorem inRange?_of_cut {n : Int} (cut : n.bmod 4294967296 ≠ n) : inRange? n = none := by
  apply if_neg
  intro small
  simp only [SmallInt.minimum, SmallInt.maximum] at small
  apply cut
  apply Int.bmod_eq_of_le <;> omega

/-- Dividing gives a factor back just when the product is not cut off. Otherwise the product
would be away from the whole by no more than a remainder of the division. -/
theorem tdiv_bmod_eq_iff (nonzero : b.val ≠ 0) :
    ((a.val * b.val).bmod 4294967296).tdiv b.val = a.val ↔
      (a.val * b.val).bmod 4294967296 = a.val * b.val := by
  constructor
  · intro back
    have whole := Int.mul_tdiv_add_tmod ((a.val * b.val).bmod 4294967296) b.val
    have rest : (((a.val * b.val).bmod 4294967296).tmod b.val).natAbs < b.val.natAbs := by
      rw [Int.natAbs_tmod]
      exact Nat.mod_lt _ (Int.natAbs_pos.mpr nonzero)
    rw [back, Int.mul_comm] at whole
    rcases b.bounds with ⟨lower, upper⟩
    apply bmod_eq_of_near
    omega
  · intro whole
    rw [whole, Int.mul_tdiv_cancel _ nonzero]

/-- Shifting to the right gives a number back just when nothing of it is cut off. -/
theorem ediv_bmod_eq_iff {count : Nat} (narrow : count < 32) :
    (a.val * 2 ^ count).bmod 4294967296 / 2 ^ count = a.val ↔
      (a.val * 2 ^ count).bmod 4294967296 = a.val * 2 ^ count := by
  have positive := two_pow_pos count
  constructor
  · intro back
    have whole := Int.mul_ediv_add_emod ((a.val * 2 ^ count).bmod 4294967296) (2 ^ count)
    have least := Int.emod_nonneg ((a.val * 2 ^ count).bmod 4294967296) (Int.ne_of_gt positive)
    have rest := Int.emod_lt_of_pos ((a.val * 2 ^ count).bmod 4294967296) positive
    have bounded := two_pow_le (Nat.le_of_lt_succ narrow)
    rw [back, Int.mul_comm] at whole
    apply bmod_eq_of_near
    omega
  · intro whole
    rw [whole, Int.mul_ediv_cancel _ (Int.ne_of_gt positive)]

/-! ## The operations on words -/

/-- The wrapped product of small integers can be divided by one of them. -/
theorem product_divides :
    ¬(Int32.ofInt a.val * Int32.ofInt b.val = .minValue ∧ Int32.ofInt b.val = -1) := by
  rintro ⟨least, minus⟩
  have negated : b.val = -1 := (b.ofInt_eq_iff (-1)).mp minus
  rcases a.bounds with ⟨lower, upper⟩
  have cut : (a.val * -1).bmod 4294967296 = a.val * -1 := by apply Int.bmod_eq_of_le <;> omega
  have means := congrArg Int32.toInt least
  rw [Int32.toInt_mul, a.toInt_ofInt, b.toInt_ofInt, negated, cut, Int32.toInt_minValue] at means
  omega

theorem ofInt_ne_minValue : Int32.ofInt a.val ≠ .minValue := by
  intro least
  have lower := a.lower
  rw [(a.ofInt_eq_iff _).mp least] at lower
  exact absurd lower (by decide)

theorem multiplyWords_eq :
    multiplyWords (.ofInt a.val) (.ofInt b.val) = .ok (inRange? (a.val * b.val)) := by
  have product : (Int32.ofInt a.val * Int32.ofInt b.val).toInt =
      (a.val * b.val).bmod 4294967296 := by
    rw [Int32.toInt_mul, a.toInt_ofInt, b.toInt_ofInt]
  by_cases zero : b.val = 0
  · have none : Int32.ofInt b.val = 0 := (b.ofInt_eq_iff 0).mpr zero
    rw [multiplyWords, if_neg (not_not.mpr none), product, zero, Int.mul_zero]
    rfl
  · have nonzero : Int32.ofInt b.val ≠ 0 := fun none => zero ((b.ofInt_eq_iff 0).mp none)
    rcases Word32.quotient_eq_ok nonzero (product_divides a b) with ⟨back, divided, means⟩
    rw [product, b.toInt_ofInt] at means
    have undone : Int32.ofInt a.val = back ↔
        (a.val * b.val).bmod 4294967296 = a.val * b.val := by
      rw [a.ofInt_eq_iff, means, eq_comm, tdiv_bmod_eq_iff a b zero]
    rw [multiplyWords, if_pos nonzero, divided]
    simp only [bind, Except.bind, pure, Except.pure]
    by_cases whole : (a.val * b.val).bmod 4294967296 = a.val * b.val
    · rw [if_neg, product, whole]
      simp [undone.mpr whole, ofInt_ne_minValue]
    · rw [if_pos, inRange?_of_cut whole]
      exact .inl fun same => whole (undone.mp same.symm)

/-- Beyond the width of a word only the sign of a small integer is left. -/
theorem ediv_two_pow_far {count : Nat} (far : 31 ≤ count) :
    a.val / 2 ^ count = if a.val < 0 then -1 else 0 := by
  have great := two_pow_le far
  rcases a.bounds with ⟨lower, upper⟩
  split
  · apply Int.ediv_eq_neg_one_of_neg_of_le <;> omega
  · apply Int.ediv_eq_zero_of_lt <;> omega

theorem ediv_two_pow_min (count : Nat) : a.val / 2 ^ min count 31 = a.val / 2 ^ count := by
  by_cases far : 31 ≤ count
  · rw [Nat.min_eq_right far, ediv_two_pow_far a far, ediv_two_pow_far a (Nat.le_refl 31)]
  · rw [Nat.min_eq_left (Nat.le_of_not_le far)]

theorem inRange?_ediv (count : Nat) : inRange? (a.val / 2 ^ count) = some (a.val / 2 ^ count) := by
  rcases a.bounds with ⟨lower, upper⟩
  have nearer := Int.natAbs_ediv_le_natAbs a.val (2 ^ count)
  by_cases negative : a.val < 0
  · have below := Int.ediv_neg_of_neg_of_pos negative (two_pow_pos count)
    apply inRange?_of_bounds <;> omega
  · have above := Int.ediv_nonneg (Int.not_lt.mp negative) (Int.le_of_lt (two_pow_pos count))
    apply inRange?_of_bounds <;> omega

/-- A shift to the left by the width of a word leaves only zero small. -/
theorem inRange?_mul_two_pow_far {count : Nat} (far : 31 ≤ count) :
    inRange? (a.val * 2 ^ count) = if a.val = 0 then some 0 else none := by
  by_cases zero : a.val = 0
  · rw [if_pos zero, zero, Int.zero_mul]
    rfl
  · rw [if_neg zero]
    apply if_neg
    intro small
    have great := two_pow_le far
    have grown := Int.natAbs_mul a.val (2 ^ count)
    have least : 1 * (2 ^ count : Int).natAbs ≤ a.val.natAbs * (2 ^ count : Int).natAbs :=
      Nat.mul_le_mul_right _ (Int.natAbs_pos.mpr zero)
    simp only [SmallInt.minimum, SmallInt.maximum] at small
    omega

/-- A number times two to the power of a count, rounded toward negative infinity. -/
def scaled (value count : Int) : Int :=
  if 0 ≤ count then value * 2 ^ count.toNat else value.fdiv (2 ^ (-count).toNat)

theorem ofInt_lt_zero_iff : Int32.ofInt a.val < 0 ↔ a.val < 0 := by
  rw [Int32.lt_iff_toInt_lt, a.toInt_ofInt]
  rfl

theorem le_ofInt_iff : 31 ≤ Int32.ofInt a.val ↔ 31 ≤ a.val := by
  rw [Int32.le_iff_toInt_le, a.toInt_ofInt]
  rfl

theorem shiftWords_right (right : b.val < 0) :
    shiftWords (.ofInt a.val) (.ofInt b.val) = .ok (inRange? (scaled a.val b.val)) := by
  have narrow : min b.val.natAbs 31 < 32 := Nat.lt_succ_of_le (Nat.min_le_right _ _)
  have positive : (-b.val).toNat = b.val.natAbs := by omega
  rcases Word32.shiftRight_eq_ok (.ofInt a.val) narrow with ⟨shifted, moved, means⟩
  rw [a.toInt_ofInt, ediv_two_pow_min] at means
  rw [shiftWords, if_pos ((ofInt_lt_zero_iff b).mpr right), b.toInt_ofInt, moved, scaled,
    if_neg (Int.not_le.mpr right), positive,
    Int.fdiv_eq_ediv_of_nonneg _ (Int.le_of_lt (two_pow_pos _)), inRange?_ediv, ← means]
  rfl

theorem shiftWords_left (left : 0 ≤ b.val) :
    shiftWords (.ofInt a.val) (.ofInt b.val) = .ok (inRange? (scaled a.val b.val)) := by
  have zero : Int32.ofInt a.val = 0 ↔ a.val = 0 := a.ofInt_eq_iff 0
  rw [shiftWords, if_neg (mt (ofInt_lt_zero_iff b).mp (Int.not_lt.mpr left)), scaled, if_pos left]
  by_cases far : 31 ≤ b.val
  · rw [if_pos ((le_ofInt_iff b).mpr far), inRange?_mul_two_pow_far a (by omega)]
    by_cases none : a.val = 0
    · rw [if_pos (zero.mpr none), if_pos none]
      rfl
    · rw [if_neg (mt zero.mp none), if_neg none]
      rfl
  · have narrow : b.val.toNat < 32 := by omega
    rcases Word32.shiftLeft_eq_ok (.ofInt a.val) narrow with ⟨shifted, moved, means⟩
    rcases Word32.shiftRight_eq_ok shifted narrow with ⟨back, returned, undoes⟩
    rw [a.toInt_ofInt] at means
    have undone : Int32.ofInt a.val = back ↔
        (a.val * 2 ^ b.val.toNat).bmod 4294967296 = a.val * 2 ^ b.val.toNat := by
      rw [a.ofInt_eq_iff, undoes, means, eq_comm, ediv_bmod_eq_iff a narrow]
    rw [if_neg (mt (le_ofInt_iff b).mp far), b.toInt_ofInt, moved]
    simp only [bind, Except.bind, pure, Except.pure, returned]
    by_cases whole : (a.val * 2 ^ b.val.toNat).bmod 4294967296 = a.val * 2 ^ b.val.toNat
    · rw [if_neg (not_not.mpr (undone.mpr whole).symm), means, whole]
    · rw [if_pos fun same => whole (undone.mp same.symm), inRange?_of_cut whole]

theorem shiftWords_eq :
    shiftWords (.ofInt a.val) (.ofInt b.val) = .ok (inRange? (scaled a.val b.val)) := by
  rcases Int.lt_or_le b.val 0 with right | left
  · exact shiftWords_right a b right
  · exact shiftWords_left a b left

theorem divideWords_eq :
    divideWords (.ofInt a.val) (.ofInt b.val) =
      .ok (if b.val ≠ 0 ∧ b.val ∣ a.val then inRange? (a.val / b.val) else none) := by
  have zero : Int32.ofInt b.val = 0 ↔ b.val = 0 := b.ofInt_eq_iff 0
  by_cases none : b.val = 0
  · rw [divideWords, if_pos (zero.mpr none), if_neg fun divides => divides.1 none]
    rfl
  · rcases Word32.remainder_eq_ok (mt zero.mp none)
      (fun least => ofInt_ne_minValue a least.1) with ⟨rest, divided, means⟩
    rw [a.toInt_ofInt, b.toInt_ofInt] at means
    have exactly : rest = 0 ↔ b.val ∣ a.val := by
      rw [← Int32.toInt_inj, means, Int.dvd_iff_tmod_eq_zero]
      rfl
    rw [divideWords, if_neg (mt zero.mp none), divided]
    simp only [bind, Except.bind, pure, Except.pure]
    by_cases divides : b.val ∣ a.val
    · rw [if_neg (not_not.mpr (exactly.mpr divides)), if_pos ⟨none, divides⟩, a.toInt_ofInt,
        b.toInt_ofInt, Int.tdiv_eq_ediv_of_dvd divides]
    · rw [if_pos (mt exactly.mp divides), if_neg fun both => divides both.2]

/-! ## Floored division -/

/-- One less than the truncated quotient, if there is a remainder and the signs differ, is the
floored one. -/
theorem floored_eq {a b : Int} (nonzero : b ≠ 0) :
    (if a.tmod b ≠ 0 ∧ (decide (a < 0) ≠ decide (b < 0)) then a.tdiv b - 1 else a.tdiv b) =
      a.fdiv b := by
  rw [Int.fdiv_eq_tdiv]
  by_cases divides : b ∣ a
  · rw [if_neg (fun rest => rest.1 (Int.tmod_eq_zero_of_dvd divides)), if_pos divides,
      Int.sub_zero]
  · have rest : a.tmod b ≠ 0 := mt Int.dvd_of_tmod_eq_zero divides
    rw [if_neg divides]
    simp only [ne_eq, rest, not_false_eq_true, true_and, decide_eq_decide]
    rcases Int.lt_or_gt_of_ne nonzero with negative | positive
    · rw [Int.sign_eq_neg_one_of_neg negative]
      split_ifs <;> omega
    · rw [Int.sign_eq_one_of_pos positive]
      split_ifs <;> omega

theorem div_eq (a b : Int) : div a b = if b = 0 then none else inRange? (a.fdiv b) := by
  by_cases zero : b = 0
  · rw [div, if_pos zero, if_pos zero]
  · rw [div, if_neg zero, if_neg zero, ← floored_eq zero]

/-- The remainder of a floored division is on the side of the divisor, and short of it. -/
theorem fmod_within (a : Int) {b : Int} (nonzero : b ≠ 0) :
    (a.fmod b = 0 ∨ (a.fmod b < 0 ↔ b < 0)) ∧ (a.fmod b).natAbs < b.natAbs := by
  have least := Int.emod_nonneg a nonzero
  have most := Int.emod_lt a nonzero
  have exactly : b ∣ a ↔ a % b = 0 := Int.dvd_iff_emod_eq_zero
  rw [Int.fmod_eq_emod]
  split <;> omega

theorem mod_eq : mod a.val b.val = (div a.val b.val).map fun _ => a.val.fmod b.val := by
  rw [mod, div_eq]
  by_cases zero : b.val = 0
  · rw [if_pos zero]
    rfl
  · rw [if_neg zero]
    cases small : inRange? (a.val.fdiv b.val) with
    | none => rfl
    | some quotient =>
      have rest := fmod_within a.val zero
      rcases b.bounds with ⟨lower, upper⟩
      rw [(inRange?_eq_some.mp small).1]
      change inRange? (a.val - a.val.fdiv b.val * b.val) = some (a.val.fmod b.val)
      rw [Int.mul_comm, ← Int.fmod_def]
      apply inRange?_of_bounds <;> omega

/-! ## All operations -/

/-- An operation answers a number just when there is one and it is small. -/
def Answers (answer : Option Int) (possible : Prop) (number : Int) : Prop :=
  ∀ result, answer = some result ↔
    possible ∧ result = number ∧ SmallInt.minimum ≤ number ∧ number ≤ SmallInt.maximum

theorem answers_ite {possible : Prop} [Decidable possible] {number : Int} :
    Answers (if possible then inRange? number else none) possible number := by
  intro result
  split
  · rename_i can
    rw [inRange?_eq_some]
    exact (and_iff_right can).symm
  · rename_i cannot
    simp [cannot]

theorem answers_inRange? (number : Int) : Answers (inRange? number) True number := by
  intro result
  rw [inRange?_eq_some, true_and]

theorem onWords_eq {operation : Int32 → Int32 → Except WordFault (Option Int)} {a b : Int}
    {result : Option Int} (ended : operation (.ofInt a) (.ofInt b) = .ok result) :
    onWords operation a b = result := by
  rw [onWords, ended]

/-- Arithmetic on small integers is exact. Sums, differences, products and shifts are answered
just when they are small; truncated, floored and exact quotients also need a divisor, which for
the exact ones divides. Floored remainders go with the floored quotients. No operation on words
faults on the way. -/
theorem small_arithmetic_exact :
    Answers (add a.val b.val) True (a.val + b.val) ∧
    Answers (sub a.val b.val) True (a.val - b.val) ∧
    Answers (mul a.val b.val) True (a.val * b.val) ∧
    Answers (shift a.val b.val) True (scaled a.val b.val) ∧
    Answers (quo a.val b.val) (b.val ≠ 0) (a.val.tdiv b.val) ∧
    Answers (div a.val b.val) (b.val ≠ 0) (a.val.fdiv b.val) ∧
    Answers (exactQuotient a.val b.val) (b.val ≠ 0 ∧ b.val ∣ a.val) (a.val / b.val) ∧
    ((mod a.val b.val).isSome ↔ (div a.val b.val).isSome) ∧
    (∀ quotient rest, div a.val b.val = some quotient → mod a.val b.val = some rest →
      a.val = b.val * quotient + rest ∧ (rest = 0 ∨ (rest < 0 ↔ b.val < 0)) ∧
        rest.natAbs < b.val.natAbs) ∧
    multiplyWords (.ofInt a.val) (.ofInt b.val) = .ok (mul a.val b.val) ∧
    shiftWords (.ofInt a.val) (.ofInt b.val) = .ok (shift a.val b.val) ∧
    divideWords (.ofInt a.val) (.ofInt b.val) = .ok (exactQuotient a.val b.val) := by
  have product := onWords_eq (multiplyWords_eq a b)
  have shifted := onWords_eq (shiftWords_eq a b)
  have divided := onWords_eq (divideWords_eq a b)
  rw [mul, shift, exactQuotient, product, shifted, divided]
  refine ⟨answers_inRange? _, answers_inRange? _, answers_inRange? _, answers_inRange? _, ?_, ?_,
    answers_ite, ?_, ?_, multiplyWords_eq a b, shiftWords_eq a b, divideWords_eq a b⟩
  · rw [quo, ← ite_not]
    exact answers_ite
  · rw [div_eq, ← ite_not]
    exact answers_ite
  · rw [mod_eq, Option.isSome_map]
  · intro quotient rest divided left
    rw [mod_eq, divided, Option.map_some, Option.some.injEq] at left
    rw [div_eq, ← ite_not] at divided
    rcases (answers_ite quotient).mp divided with ⟨nonzero, same, -, -⟩
    rw [same, ← left]
    exact ⟨(Int.mul_fdiv_add_fmod a.val b.val).symm, fmod_within a.val nonzero⟩

end Checked

end Smalltalk
