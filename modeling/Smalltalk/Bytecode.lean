namespace Smalltalk

/-! The first byte of an instruction says what the instruction does. Some
instructions take operands from the bytes that follow; these are read while the
instruction runs, so a method may end in the middle of one. -/

/-- Values that an instruction can name without a literal. -/
inductive Constant where
  | receiver
  | true
  | false
  | nil
deriving DecidableEq

/-- The arithmetic messages that have an instruction of their own. -/
inductive ArithmeticMessage where
  | add
  | subtract
  | lessThan
  | greaterThan
  | lessOrEqual
  | greaterOrEqual
  | equal
  | notEqual
  | multiply
  | divide
  | modulo
  | makePoint
  | bitShift
  | div
  | bitAnd
  | bitOr
deriving DecidableEq

/-- The further messages that have an instruction of their own. Those that are
always sent carry their place among the special selectors. -/
inductive CommonMessage where
  | atIndex
  | atIndexPut
  | identical
  | species
  | blockCopy
  | value
  | valueWithArgument
  | sent (index : Nat)
deriving DecidableEq

/-- What the first byte of an instruction asks for. -/
inductive Opcode where
  | pushField (index : Nat)
  | pushTemporary (index : Nat)
  | pushLiteral (index : Nat)
  | pushVariable (index : Nat)
  | popIntoField (index : Nat)
  | popIntoTemporary (index : Nat)
  | pushConstant (constant : Constant)
  | pushInteger (n : Int)
  /-- Return a constant to the sender of the home context. -/
  | returnConstant (constant : Constant)
  /-- Return the top of the stack to the sender of the home context. -/
  | returnTop
  /-- Return the top of the stack to the caller of the active context. -/
  | returnTopToCaller
  | extendedPush
  | extendedStore
  | extendedPop
  | extendedSend
  | doubleExtended
  | extendedSuperSend
  | secondExtendedSend
  | pop
  | duplicate
  | pushContext
  | jump (distance : Nat)
  | jumpIfFalse (distance : Nat)
  /-- An unconditional jump by `page * 256` plus the next byte. -/
  | longJump (page : Int)
  /-- A jump by `page * 256` plus the next byte, taken on `condition`. -/
  | longJumpIf (condition : Bool) (page : Nat)
  | arithmetic (message : ArithmeticMessage)
  | common (message : CommonMessage)
  | sendLiteral (index argumentCount : Nat)
  | reserved
deriving DecidableEq

namespace ArithmeticMessage

/-- The messages in the order of their special selectors. -/
def all : List ArithmeticMessage :=
  [add, subtract, lessThan, greaterThan, lessOrEqual, greaterOrEqual, equal, notEqual,
    multiply, divide, modulo, makePoint, bitShift, div, bitAnd, bitOr]

/-- The place of the message among the special selectors. -/
def index : ArithmeticMessage → Nat
  | add => 0
  | subtract => 1
  | lessThan => 2
  | greaterThan => 3
  | lessOrEqual => 4
  | greaterOrEqual => 5
  | equal => 6
  | notEqual => 7
  | multiply => 8
  | divide => 9
  | modulo => 10
  | makePoint => 11
  | bitShift => 12
  | div => 13
  | bitAnd => 14
  | bitOr => 15

/-- The message at a place among the special selectors; places past the end
stand for the last message. -/
def ofIndex (index : Nat) : ArithmeticMessage := all[index]?.getD bitOr

@[simp] theorem ofIndex_index (message : ArithmeticMessage) : ofIndex message.index = message := by
  cases message <;> rfl

end ArithmeticMessage

namespace CommonMessage

/-- The place of the message among the special selectors. -/
def index : CommonMessage → Nat
  | atIndex => 16
  | atIndexPut => 17
  | identical => 22
  | species => 23
  | blockCopy => 24
  | value => 25
  | valueWithArgument => 26
  | sent index => index

/-- The message at a place among the special selectors. -/
def ofIndex : Nat → CommonMessage
  | 16 => atIndex
  | 17 => atIndexPut
  | 22 => identical
  | 23 => species
  | 24 => blockCopy
  | 25 => value
  | 26 => valueWithArgument
  | index => sent index

@[simp] theorem index_ofIndex (place : Nat) : (ofIndex place).index = place := by
  unfold ofIndex
  split <;> rfl

end CommonMessage

namespace Opcode

/-- The instruction that a byte starts. -/
def ofByte (byte : UInt8) : Opcode :=
  let code := byte.toNat
  if code < 16 then pushField code
  else if code < 32 then pushTemporary (code - 16)
  else if code < 64 then pushLiteral (code - 32)
  else if code < 96 then pushVariable (code - 64)
  else if code < 104 then popIntoField (code - 96)
  else if code < 112 then popIntoTemporary (code - 104)
  else if code < 144 then
    match code with
    | 112 => pushConstant .receiver
    | 113 => pushConstant .true
    | 114 => pushConstant .false
    | 115 => pushConstant .nil
    | 116 => pushInteger (-1)
    | 117 => pushInteger 0
    | 118 => pushInteger 1
    | 119 => pushInteger 2
    | 120 => returnConstant .receiver
    | 121 => returnConstant .true
    | 122 => returnConstant .false
    | 123 => returnConstant .nil
    | 124 => returnTop
    | 125 => returnTopToCaller
    | 128 => extendedPush
    | 129 => extendedStore
    | 130 => extendedPop
    | 131 => extendedSend
    | 132 => doubleExtended
    | 133 => extendedSuperSend
    | 134 => secondExtendedSend
    | 135 => pop
    | 136 => duplicate
    | 137 => pushContext
    | _ => reserved
  else if code < 152 then jump (code - 144 + 1)
  else if code < 160 then jumpIfFalse (code - 152 + 1)
  else if code < 168 then longJump ((code - 160 : Nat) - 4)
  else if code < 172 then longJumpIf true (code - 168)
  else if code < 176 then longJumpIf false (code - 172)
  else if code < 192 then arithmetic (.ofIndex (code - 176))
  else if code < 208 then common (.ofIndex (code - 176))
  else sendLiteral (code % 16) ((code - 208) / 16)

example : ofByte 0x76 = pushInteger 1 := by decide
example : ofByte 0xA3 = longJump (-1) := by decide
example : ofByte 0xAD = longJumpIf false 1 := by decide
example : ofByte 0xC0 = common .atIndex := by decide
example : ofByte 0xE1 = sendLiteral 1 1 := by decide

end Opcode

/-! ## Folded branches

A comparison that is followed by a conditional jump does not have to push its
result for the jump to pop: it can take the jump itself. The stack and the
program counter come out the same. -/

namespace Branch

/-- How far past `pc` execution continues when the comparison before `pc`
yields `result` and the instruction there is a complete conditional jump. -/
def advance? (result : Bool) (code : Array UInt8) (pc : Nat) : Option Nat :=
  match code[pc]?.map Opcode.ofByte with
  | some (.jumpIfFalse distance) => some (1 + if result then 0 else distance)
  | some (.longJumpIf condition page) =>
    code[pc + 1]?.map fun low => 2 + if result = condition then page * 256 + low.toNat else 0
  | _ => none

example : advance? false #[0x9F] 0 = some 9 := by decide
example : advance? true #[0xA8, 0x03] 0 = some 5 := by decide
example : advance? true #[0xA8] 0 = none := by decide
example : advance? true #[0x90] 0 = none := by decide

end Branch

end Smalltalk
