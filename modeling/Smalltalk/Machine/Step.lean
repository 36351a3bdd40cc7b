import Smalltalk.Machine.Send

namespace Smalltalk

/-! One step of the machine reads the next byte of the running method and does
what it says. -/

namespace Run

/-- Read the next byte of the running method. -/
def nextByte : Run UInt8 := do
  let registers ← getRegisters
  match ((← object registers.method).bytes?).bind (·[registers.pc]?) with
  | none => fail (.pcOutOfRange registers.pc)
  | some byte =>
    modifyRegisters fun registers => { registers with pc := registers.pc + 1 }
    return byte

/-- Stop at an instruction that is not used. -/
def failReserved (opcode : UInt8) : Run Unit := do
  fail (.reservedOpcode opcode ((← getRegisters).pc - 1))

/-! ## Variables -/

def field (index : Nat) : Run Value := do
  fetch (← getRegisters).receiver index

def storeField (index : Nat) (value : Value) : Run Unit := do
  store (← getRegisters).receiver index value

def temporary (index : Nat) : Run Value := do
  fetch (← getRegisters).homeContext (ContextField.frame + index)

def storeTemporary (index : Nat) (value : Value) : Run Unit := do
  store (← getRegisters).homeContext (ContextField.frame + index) value

/-- A literal of the running method; its header does not count. -/
def literal (index : Nat) : Run Value := do
  fetch (← getRegisters).method (index + 1)

/-- The value of the association that is a literal. -/
def literalVariable (index : Nat) : Run Value := do
  fetch (← literal index) AssociationField.value

def storeLiteralVariable (index : Nat) (value : Value) : Run Unit := do
  store (← literal index) AssociationField.value value

def constant (constant : Constant) : Run Value := do
  let registers ← getRegisters
  match constant with
  | .receiver => return registers.receiver
  | .true => return registers.specials.true
  | .false => return registers.specials.false
  | .nil => return registers.specials.nil

/-! ## Jumps -/

def advance (distance : Nat) : Run Unit :=
  modifyRegisters fun registers => { registers with pc := registers.pc + distance }

/-- Jump forward or back. -/
def jumpBy (distance : Int) : Run Unit := do
  let pc := (← getRegisters).pc
  let target := (pc : Int) + distance
  if target < 0 then fail (.pcOutOfRange pc)
  modifyRegisters fun registers => { registers with pc := target.toNat }

/-- Jump if the top of the stack is the given truth value. What is no truth value
at all is asked to be one. -/
def jumpIf (sender : Reply.Sender) (condition : Bool) (distance : Nat) : Run Unit := do
  let value ← pop
  let specials := (← getRegisters).specials
  if value = specials.boolean condition then
    advance distance
  else if value ≠ specials.boolean !condition then
    modifyRegisters fun registers => { registers with sp := registers.sp + 1 }
    sendBy sender (← specialObject Special.mustBeBoolean) 0 false

/-- Push a truth value, or take the conditional jump that would pop it. -/
def pushOrBranch (result : Bool) : Run Unit := do
  let registers ← getRegisters
  let code := ((← object registers.method).bytes?).getD #[]
  match Branch.advance? result code registers.pc with
  | some distance => advance distance
  | none => push (registers.specials.boolean result)

/-! ## Returns -/

def returnToHomeSender (value : Value) : Run Unit := do
  let sender ← fetch (← getRegisters).homeContext ContextField.sender
  returnTo value sender

/-! ## Messages with an instruction of their own -/

/-- Send the special selector at a place. A negative argument count reaches below
every stack. -/
def sendSpecial (sender : Reply.Sender) (index : Nat) : Run Unit := do
  let registers ← getRegisters
  let selector ← fetch registers.specials.specialSelectors (index * 2)
  let count ← fetchInt registers.specials.specialSelectors (index * 2 + 1)
  if count < 0 then fail (.memory (.indexOutOfBounds registers.activeContext 0))
  sendBy sender selector count.toNat false

/-- The two uppermost operands, if both are small integers. -/
def integerPair : Run (Option (Int × Int)) := do
  let a ← operand 1
  let b ← operand 0
  return do return (← a.int?, ← b.int?)

/-- Do an arithmetic message on the spot. Answers whether that was possible. -/
def inlineArithmetic (message : ArithmeticMessage) : Run Bool := do
  match message.meaning with
  | .makePoint => Reply.pointOf 1
  | .operation operation =>
    match ← integerPair with
    | none => return false
    | some (a, b) =>
      match operation.value? a b with
      | none => return false
      | some result =>
        replace 2 result
        return true
  | .comparison comparison =>
    match ← integerPair with
    | none => return false
    | some (a, b) =>
      drop 2
      pushOrBranch (comparison.onIntegers a b)
      return true

/-- Do one of the further messages on the spot. Answers whether that was
possible. -/
def inlineCommon (message : CommonMessage) : Run Bool := do
  match message with
  | .atIndex => Reply.inlineElementAt
  | .atIndexPut => Reply.inlineSetElementAt
  | .identical =>
    let argument ← operand 0
    let receiver ← operand 1
    drop 2
    pushOrBranch (receiver = argument)
    return true
  | .species =>
    replace 1 (← classOf (← top))
    return true
  | .blockCopy => Reply.blockCopy 1
  | .value => Reply.blockValue 0
  | .valueWithArgument => Reply.blockValue 1
  | .sent _ => return false

/-! ## Instructions with operand bytes -/

def extendedPush (operand : UInt8) : Run Unit := do
  let index := operand.toNat % 64
  match operand.toNat / 64 with
  | 0 => push (← field index)
  | 1 => push (← temporary index)
  | 2 => push (← literal index)
  | _ => push (← literalVariable index)

/-- Store the top of the stack; a literal cannot be stored into. -/
def extendedStore (opcode operand : UInt8) : Run Unit := do
  let index := operand.toNat % 64
  let value ← top
  match operand.toNat / 64 with
  | 0 => storeField index value
  | 1 => storeTemporary index value
  | 2 => failReserved opcode
  | _ => storeLiteralVariable index value

def doubleExtended (sender : Reply.Sender) : Run Unit := do
  let second := (← nextByte).toNat
  let third := (← nextByte).toNat
  match second / 32 with
  | 0 => sendBy sender (← literal third) (second % 32) false
  | 1 => sendBy sender (← literal third) (second % 32) true
  | 2 => push (← field third)
  | 3 => push (← literal third)
  | 4 => push (← literalVariable third)
  | 5 => storeField third (← top)
  | 6 =>
    storeField third (← top)
    drop 1
  | _ => storeLiteralVariable third (← top)

/-! ## Dispatch -/

/-- Do what an opcode says. -/
def execute (sender : Reply.Sender) (byte : UInt8) : Run Unit := do
  match Opcode.ofByte byte with
  | .pushField index => push (← field index)
  | .pushTemporary index => push (← temporary index)
  | .pushLiteral index => push (← literal index)
  | .pushVariable index => push (← literalVariable index)
  | .popIntoField index => storeField index (← pop)
  | .popIntoTemporary index => storeTemporary index (← pop)
  | .pushConstant name => push (← constant name)
  | .pushInteger n => push (.ofInt n)
  | .returnConstant name => returnToHomeSender (← constant name)
  | .returnTop => returnToHomeSender (← pop)
  | .returnTopToCaller =>
    let value ← pop
    returnTo value (← fetch (← getRegisters).activeContext BlockField.caller)
  | .extendedPush => extendedPush (← nextByte)
  | .extendedStore => extendedStore byte (← nextByte)
  | .extendedPop =>
    extendedStore byte (← nextByte)
    drop 1
  | .extendedSend =>
    let operand := (← nextByte).toNat
    sendBy sender (← literal (operand % 32)) (operand / 32) false
  | .doubleExtended => doubleExtended sender
  | .extendedSuperSend =>
    let operand := (← nextByte).toNat
    sendBy sender (← literal (operand % 32)) (operand / 32) true
  | .secondExtendedSend =>
    let operand := (← nextByte).toNat
    sendBy sender (← literal (operand % 64)) (operand / 64) false
  | .pop => drop 1
  | .duplicate => push (← top)
  | .pushContext =>
    modifyRegisters fun registers => { registers with reclaimable := 0 }
    push (← getRegisters).activeContext
  | .jump distance => advance distance
  | .jumpIfFalse distance => jumpIf sender false distance
  | .longJump page =>
    let low ← nextByte
    jumpBy (page * 256 + low.toNat)
    if page < 0 then checkInterrupts
  | .longJumpIf condition page =>
    let low ← nextByte
    jumpIf sender condition (page * 256 + low.toNat)
  | .arithmetic message =>
    unless ← inlineArithmetic message do sendSpecial sender message.index
  | .common message =>
    unless ← inlineCommon message do sendSpecial sender message.index
  | .sendLiteral index count => sendBy sender (← literal index) count false
  | .reserved => failReserved byte

/-- Execute one instruction, with a way to send messages. -/
def stepBy (sender : Reply.Sender) : Run Unit := do
  let byte ← nextByte
  modify fun machine => { machine with bytecodes := machine.bytecodes + 1 }
  execute sender byte

/-- Execute one instruction. -/
def step : Run Unit := stepBy (sendToClass Machine.nestingLimit)

/-- Execute instructions until the machine quits or `limit` of them are done.
Answers how many were, beyond the `done` ones. -/
def stepUntil : (limit done : Nat) → Run Nat
  | 0, done => return done
  | limit + 1, done => do
    if (← get).hasQuit then return done
    step
    stepUntil limit (done + 1)

/-- Execute at most `limit` instructions and answer how many were executed. -/
def runFor (limit : Nat) : Run Nat := stepUntil limit 0

/-- The number of instructions that a run without a limit may execute. -/
def unlimited : Nat := 18446744073709551615

/-- Execute instructions until the machine quits. -/
def runToEnd : Run Unit := discard (runFor unlimited)

end Run

namespace Machine

/-- Execute at most `limit` instructions and keep the machine after each of them,
with the reason why the last one stopped, if it did. -/
def trace (machine : Machine) : (limit : Nat) → List Machine × Option Stop
  | 0 => ([], none)
  | limit + 1 =>
    if machine.hasQuit then ([], none)
    else
      match Run.step machine with
      | .error stop after => ([after], some stop)
      | .ok _ after =>
        let (later, stopped) := trace after limit
        (after :: later, stopped)

/-- A machine at the suspended context of the active process, with nothing
found or remembered yet. -/
def start (heap : Heap) (specialObjects : Value) (config : Config) (screen : Screen) :
    Except Stop Machine := do
  match config.validate with
  | .error reason => throw (.error (.config reason))
  | .ok () =>
    match Specials.ofArray heap specialObjects with
    | .error error => throw (.error (.memory error))
    | .ok specials =>
      let nil := specials.nil
      let registers : Registers :=
        { specials
          activeContext := nil
          homeContext := nil
          method := nil
          receiver := nil
          newMethod := nil
          messageSelector := nil
          lookupClass := nil
          methodCache := .ofSize config.methodCacheSize config.methodCacheProbes
          atCache := .ofSize config.atCacheSize }
      let machine : Machine :=
        { heap
          registers
          config
          timing := .ofConfig config
          input := { limit := config.typeaheadLimit }
          screen }
      match Run.loadInitialContext machine with
      | .ok _ started => return started
      | .error stop _ => throw stop

end Machine

end Smalltalk
