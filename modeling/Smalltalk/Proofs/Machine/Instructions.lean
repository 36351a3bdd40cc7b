import Smalltalk.Machine.Step
import Smalltalk.Proofs.Primitive.Plain

namespace Smalltalk

/-! Instructions are plain up to the message that they may send, and nothing is left to do
after it. -/

namespace Run

/-! ## Without a message -/

@[grind ←]
theorem nextByte_plain : Plain nextByte := by
  refine .bindRegisters (fun _ _ => rfl) fun registers => object_plain.bind fun method => ?_
  split <;> grind

@[grind ←]
theorem field_plain {index : Nat} : Plain (field index) := by
  grind [field]

@[grind ←]
theorem storeField_plain {index : Nat} {value : Value} : Plain (storeField index value) := by
  grind [storeField]

@[grind ←]
theorem temporary_plain {index : Nat} : Plain (temporary index) := by
  grind [temporary]

@[grind ←]
theorem storeTemporary_plain {index : Nat} {value : Value} :
    Plain (storeTemporary index value) := by
  grind [storeTemporary]

@[grind ←]
theorem literal_plain {index : Nat} : Plain (literal index) := by
  grind [literal]

@[grind ←]
theorem literalVariable_plain {index : Nat} : Plain (literalVariable index) := by
  grind [literalVariable]

@[grind ←]
theorem storeLiteralVariable_plain {index : Nat} {value : Value} :
    Plain (storeLiteralVariable index value) := by
  grind [storeLiteralVariable]

@[grind ←]
theorem failReserved_plain {opcode : UInt8} : Plain (failReserved opcode) := by
  grind [failReserved]

@[grind ←]
theorem constant_plain {name : Constant} : Plain (constant name) := by
  cases name <;> grind [constant]

@[grind ←]
theorem advance_plain {distance : Nat} : Plain (advance distance) := by
  grind [advance]

@[grind ←]
theorem jumpBy_plain {distance : Int} : Plain (jumpBy distance) := by
  grind [jumpBy]

@[grind ←]
theorem pushOrBranch_plain {result : Bool} : Plain (pushOrBranch result) := by
  refine .bindRegisters (fun _ _ => rfl) fun registers => object_plain.bind fun method => ?_
  dsimp only
  split <;> grind

@[grind ←]
theorem returnToHomeSender_plain {value : Value} : Plain (returnToHomeSender value) := by
  grind [returnToHomeSender]

@[grind ←]
theorem integerPair_plain : Plain integerPair := by
  grind [integerPair]

@[grind ←]
theorem inlineArithmetic_plain {message : ArithmeticMessage} :
    Plain (inlineArithmetic message) := by
  unfold inlineArithmetic
  cases message.meaning with
  | makePoint => exact Reply.pointOf_plain
  | operation operation =>
    refine integerPair_plain.bind fun pair => ?_
    rcases pair with - | ⟨a, b⟩
    · exact .pure
    · dsimp only
      cases operation.value? a b <;> grind
  | comparison comparison =>
    refine integerPair_plain.bind fun pair => ?_
    rcases pair with - | ⟨a, b⟩ <;> grind

@[grind ←]
theorem inlineCommon_plain {message : CommonMessage} : Plain (inlineCommon message) := by
  cases message with
  | identical =>
    refine operand_plain.bind fun argument => operand_plain.bind fun receiver => ?_
    exact drop_plain.andThen (pushOrBranch_plain.andThen .pure)
  | species =>
    exact top_plain.bind fun _ => classOf_plain.bind fun _ => replace_plain.andThen .pure
  | _ => grind [inlineCommon]

@[grind ←]
theorem extendedPush_plain {operand : UInt8} : Plain (extendedPush operand) := by
  grind [extendedPush]

@[grind ←]
theorem extendedStore_plain {opcode operand : UInt8} : Plain (extendedStore opcode operand) := by
  grind [extendedStore]

/-! ## With a message -/

/-- A computation that is plain up to the message that it may send as the last thing. -/
inductive SendsLast (sender : Reply.Sender) : Run Unit → Prop
  | plain {run : Run Unit} (plain : Plain run) : SendsLast sender run
  | send (selector : Value) (count : Nat) (species : Value) :
      SendsLast sender (sender selector count species)
  | bind {α : Type} {run : Run α} {next : α → Run Unit} (first : Plain run)
      (rest : ∀ result, SendsLast sender (next result)) : SendsLast sender (run >>= next)
  | bindRegisters {next : Registers → Run Unit}
      (rest : ∀ registers, SendsLast sender (next registers)) :
      SendsLast sender (getRegisters >>= next)

namespace SendsLast

variable {sender : Reply.Sender}

theorem ite {condition : Prop} [Decidable condition] {first second : Run Unit}
    (yes : condition → SendsLast sender first) (no : ¬ condition → SendsLast sender second) :
    SendsLast sender (if condition then first else second) := by
  split
  · exact yes ‹_›
  · exact no ‹_›

theorem sendBy (selector : Value) (count : Nat) (toSuper : Bool) :
    SendsLast sender (sendBy sender selector count toSuper) := by
  refine .ite (fun _ => .bind superclassOfMethod_plain fun species => .send _ _ _) fun _ => ?_
  exact .bind operand_plain fun receiver => .bind classOf_plain fun species => .send _ _ _

theorem sendLiteral (index count : Nat) (toSuper : Bool) :
    SendsLast sender (do Run.sendBy sender (← literal index) count toSuper) :=
  .bind literal_plain fun selector => sendBy selector count toSuper

theorem sendSpecial (index : Nat) : SendsLast sender (sendSpecial sender index) := by
  refine .bindRegisters fun registers => .bind fetch_plain fun selector => ?_
  refine .bind fetchInt_plain fun count => .ite (fun _ => .plain .failThen) fun _ => ?_
  exact sendBy _ _ _

theorem unlessDone {inline : Run Bool} (plain : Plain inline) (index : Nat) :
    SendsLast sender (do unless ← inline do Run.sendSpecial sender index) :=
  .bind plain fun _ => .ite (fun _ => .plain .pure) fun _ => sendSpecial index

theorem jumpIf (condition : Bool) (distance : Nat) :
    SendsLast sender (jumpIf sender condition distance) := by
  refine .bind pop_plain fun value => .bindRegisters fun registers => ?_
  refine .ite (fun _ => .plain advance_plain) fun _ => .ite (fun _ => ?_) fun _ => .plain .pure
  refine .bind (modifyRegisters_plain fun _ _ _ => rfl) fun _ => ?_
  exact .bind specialObject_plain fun mustBeBoolean => sendBy _ _ _

theorem doubleExtended : SendsLast sender (doubleExtended sender) := by
  refine .bind nextByte_plain fun second => .bind nextByte_plain fun third => ?_
  dsimp only
  split
  · exact sendLiteral _ _ _
  · exact sendLiteral _ _ _
  all_goals exact .plain (by grind)

theorem execute (byte : UInt8) : SendsLast sender (execute sender byte) := by
  unfold Run.execute
  cases Opcode.ofByte byte with
  | extendedSend => exact .bind nextByte_plain fun operand => sendLiteral _ _ _
  | doubleExtended => exact doubleExtended
  | extendedSuperSend => exact .bind nextByte_plain fun operand => sendLiteral _ _ _
  | secondExtendedSend => exact .bind nextByte_plain fun operand => sendLiteral _ _ _
  | jumpIfFalse distance => exact jumpIf false distance
  | longJumpIf condition page => exact .bind nextByte_plain fun low => jumpIf condition _
  | arithmetic message => exact unlessDone inlineArithmetic_plain message.index
  | common message => exact unlessDone inlineCommon_plain message.index
  | sendLiteral index count => exact sendLiteral index count false
  | _ => exact .plain (by grind)

/-- A step is plain but for a message that it may send in the end. -/
theorem stepBy : SendsLast sender (stepBy sender) := by
  refine .bind nextByte_plain fun byte => ?_
  exact .bind (modify_plain fun _ _ _ _ => rfl) fun _ => execute byte

end SendsLast

end Run

end Smalltalk
