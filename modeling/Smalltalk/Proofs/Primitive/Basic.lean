import Smalltalk.Primitive.Arithmetic
import Smalltalk.Proofs.Machine.Moves

namespace Smalltalk

/-! Primitives answer what is visible. Those that answer a new object move to the
scope in which it is. -/

namespace Run

variable {scope : Scope}

theorem receiverOf_stays (count : Nat) : Stays scope (receiverOf count) scope.Sees :=
  operand_stays count

theorem argument_stays (count index : Nat) : Stays scope (argument count index) scope.Sees :=
  .ite (fun _ => operand_stays _) fun _ => .throw

theorem succeed_stays (count : Nat) {result : Value} (seen : scope.Sees result) :
    Stays scope (succeed count result) fun _ => True :=
  (replace_stays _ seen).bind fun _ _ => .pure trivial

/-- Answering the receiver itself. -/
theorem succeedSelf_stays (count : Nat) :
    Stays scope (do
      drop count
      return true) fun _ => True :=
  (drop_stays count).bind fun _ _ => .pure trivial

/-- Answering a new object. -/
theorem succeed_moves {run : Run Value} (count : Nat)
    (made : Moves scope run fun later value => later.Sees value) :
    Moves scope (run >>= succeed count) fun _ _ => True :=
  made.bind fun _ _ seen => (succeed_stays count seen).moves

theorem booleanObject_stays (value : Bool) : Stays scope (booleanObject value) scope.Sees :=
  getRegisters_stays.bind fun _ within => .pure (within.sees_boolean value)

theorem wordOf_stays (value : Value) : Stays scope (wordOf value) fun _ => True := by
  cases value with
  | small n => exact .pure trivial
  | object slot =>
    apply get_stays.bind
    intro machine _
    cases machine.heap.get? (.object slot) with
    | none => exact .pure trivial
    | some object => exact .ite (fun _ => .pure trivial) fun _ => .pure trivial

theorem wordObject_moves (word : UInt32) :
    Moves scope (wordObject word) fun later value => later.Sees value := by
  unfold wordObject
  split
  · rename_i value small
    exact .pure (Scope.sees_ofInt? small)
  · apply getRegisters_stays.bindMoves
    intro registers within
    refine register_moves ?_
    exact Scope.seesInto_of_raw (within.specials _ (by simp [Specials.values])) rfl

theorem makePoint_moves {x y : Value} (horizontal : scope.Sees x) (vertical : scope.Sees y) :
    Moves scope (makePoint x y) fun later value => later.Sees value := by
  apply getRegisters_stays.bindMoves
  intro registers within
  refine register_moves ?_
  refine Scope.seesInto_of_pointers (within.specials _ (by simp [Specials.values])) rfl ?_
  intro value member
  simp only [List.mem_toArray, List.mem_cons, List.not_mem_nil, or_false] at member
  rcases member with rfl | rfl
  · exact horizontal
  · exact vertical

end Run

namespace Reply

open Run

variable {scope : Scope}

/-! ## Small integers -/

theorem integerOperands_stays (count : Nat) :
    Stays scope (integerOperands count) fun _ => True :=
  (receiverOf_stays count).bind fun _ _ => (argument_stays count 0).bind fun _ _ => .pure trivial

theorem sees_value? {operation : IntegerOperation} {a b : Int} {result : Value}
    (computed : operation.value? a b = some result) : scope.Sees result := by
  rcases Option.bind_eq_some_iff.mp computed with ⟨n, -, small⟩
  exact Scope.sees_ofInt? small

theorem integerOperation_stays (operation : IntegerOperation) (count : Nat) :
    Stays scope (integerOperation operation count) fun _ => True := by
  refine .ite (fun _ => .pure trivial) fun _ => ?_
  apply (integerOperands_stays count).bind
  intro operands _
  rcases operands with - | ⟨a, b⟩
  · exact .pure trivial
  · cases computed : operation.value? a b with
    | none => simpa [computed] using Maintains.pure trivial
    | some result => simpa [computed] using succeed_stays count (sees_value? computed)

theorem integerComparison_stays (comparison : Comparison) (count : Nat) :
    Stays scope (integerComparison comparison count) fun _ => True := by
  refine .ite (fun _ => .pure trivial) fun _ => ?_
  apply (integerOperands_stays count).bind
  intro operands _
  rcases operands with - | ⟨a, b⟩
  · exact .pure trivial
  · exact (booleanObject_stays _).bind fun _ seen => succeed_stays count seen

theorem pointOf_moves (count : Nat) : Moves scope (pointOf count) fun _ _ => True := by
  refine .ite (fun _ => .pure trivial) fun _ => ?_
  apply (receiverOf_stays count).bindMoves
  intro x horizontal
  apply (argument_stays count 0).bindMoves
  intro y vertical
  refine .ite (fun _ => .pure trivial) fun _ => ?_
  exact succeed_moves count (makePoint_moves horizontal vertical)

/-! ## Floats -/

theorem floatOf_stays (value : Value) : Stays scope (floatOf value) fun _ => True := by
  cases value with
  | small n => exact .pure trivial
  | object slot =>
    apply get_stays.bind
    intro machine _
    cases machine.heap.get? (.object slot) with
    | none => exact .pure trivial
    | some object => exact .pure trivial

theorem newFloat_moves (bits : UInt64) :
    Moves scope (newFloat bits) fun later value => later.Sees value := by
  apply getRegisters_stays.bindMoves
  intro registers within
  refine register_moves ?_
  exact Scope.seesInto_of_raw (within.specials _ (by simp [Specials.values])) rfl

theorem floatOperands_stays (count : Nat) : Stays scope (floatOperands count) fun _ => True := by
  apply (receiverOf_stays count).bind
  intro receiver _
  refine .ite (fun _ => .pure trivial) fun _ => ?_
  apply (floatOf_stays receiver).bind
  intro _ _
  refine (argument_stays count 0).bind fun argument _ => ?_
  exact (floatOf_stays argument).bind fun _ _ => .pure trivial

theorem floatOperation_moves (operation : FloatOperation) (count : Nat) :
    Moves scope (floatOperation operation count) fun _ _ => True := by
  refine .ite (fun _ => .pure trivial) fun _ => ?_
  apply (floatOperands_stays count).bindMoves
  intro operands _
  rcases operands with - | ⟨a, b⟩
  · exact .pure trivial
  · exact succeed_moves count (newFloat_moves _)

theorem floatDivision_moves (count : Nat) : Moves scope (floatDivision count) fun _ _ => True := by
  refine .ite (fun _ => .pure trivial) fun _ => ?_
  apply (argument_stays count 0).bindMoves
  intro argument _
  apply (floatOf_stays argument).bindMoves
  intro _ _
  exact .ite (fun _ => .pure trivial) fun _ => floatOperation_moves .divide count

theorem floatComparison_stays (comparison : Comparison) (count : Nat) :
    Stays scope (floatComparison comparison count) fun _ => True := by
  refine .ite (fun _ => .pure trivial) fun _ => ?_
  apply (floatOperands_stays count).bind
  intro operands _
  rcases operands with - | ⟨a, b⟩
  · exact .pure trivial
  · exact (booleanObject_stays _).bind fun _ seen => succeed_stays count seen

theorem asFloat_moves (count : Nat) : Moves scope (asFloat count) fun _ _ => True := by
  apply (receiverOf_stays count).bindMoves
  intro receiver _
  cases receiver.int? with
  | none => exact .pure trivial
  | some n => exact succeed_moves count (newFloat_moves _)

theorem truncated_stays (count : Nat) : Stays scope (truncated count) fun _ => True := by
  apply (receiverOf_stays count).bind
  intro receiver _
  refine .ite (fun _ => .pure trivial) fun _ => ?_
  apply (floatOf_stays receiver).bind
  intro bits _
  split
  · exact .pure trivial
  · rename_i result computed
    rcases Option.bind_eq_some_iff.mp computed with ⟨n, -, small⟩
    exact succeed_stays count (Scope.sees_ofInt? small)

end Reply

end Smalltalk
