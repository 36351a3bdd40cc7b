import Smalltalk.Machine.Activation
import Smalltalk.Primitive.Table

namespace Smalltalk

/-! Sending a message: find its method, try the method's primitive, and activate
the method if there is none or it fails. -/

namespace Run

/-! ## Primitives by number -/

/-- The numbers of the quick primitives: the receiver itself, seven constants,
and then the fields of the receiver. -/
def quickSelf : Nat := 256
def quickFirstField : Nat := 264
def quickLast : Nat := 519

/-- What a quick primitive answers for a receiver. -/
def quickResult (number : Nat) (receiver : Value) : Run (Option Value) := do
  let specials := (← getRegisters).specials
  match number with
  | 256 => return some receiver
  | 257 => return some specials.true
  | 258 => return some specials.false
  | 259 => return some specials.nil
  | 260 => return some (.ofInt (-1))
  | 261 => return some (.ofInt 0)
  | 262 => return some (.ofInt 1)
  | 263 => return some (.ofInt 2)
  | _ =>
    let fields := (((← getHeap).get? receiver).bind HeapObject.pointers?).getD #[]
    return fields[number - quickFirstField]?

def quickPrimitive (number : Nat) : Run Bool := do
  let count := (← getRegisters).argumentCount
  match ← quickResult number (← operand count) with
  | none => return false
  | some result => Run.succeed count result

/-- Run the primitive with a number for the message being sent. A primitive that
fails, or is not there, leaves the stack as it was. -/
def respond (send : Reply.Sender) (number : Nat) : Run Bool := do
  if quickSelf ≤ number ∧ number ≤ quickLast then
    quickPrimitive number
  else
    match Primitive.ofNumber? number with
    | none => return false
    | some primitive =>
      let registers ← getRegisters
      let succeeded ← primitive.run send registers.argumentCount
      if !succeeded then
        modifyRegisters fun after => { after with sp := registers.sp }
      return succeeded

/-! ## Messages -/

/-- Send a message whose method is searched for in a given class. `depth` bounds
how deep messages that perform messages may be nested. -/
def sendToClassBy (resolve : Resolver) : (depth : Nat) → Reply.Sender
  | 0 => fun _ _ _ => throw .nestedTooDeep
  | depth + 1 => fun selector count species => do
    modifyRegisters fun registers =>
      { registers with
        messageSelector := selector
        argumentCount := count
        lookupClass := species }
    findMethodBy resolve species
    let number := (← getRegisters).primitiveIndex
    let answered ← if 0 < number then respond (sendToClassBy resolve depth) number else pure false
    unless answered do activateMethod

/-- Send a message whose method is looked up in a given class. -/
def sendToClass : (depth : Nat) → Reply.Sender := sendToClassBy resolveMessage

/-- The superclass of the class that the running method belongs to; the last
literal of the method is an association with that class. -/
def superclassOfMethod : Run Value := do
  let method := (← getRegisters).method
  let header ← methodHeader method
  let association ← fetch method header.literalCount
  fetch (← fetch association AssociationField.value) ClassField.superclass

/-- Send a message to the operand below its arguments. A message to super is
looked up above the class of the running method. -/
def sendBy (sender : Reply.Sender) (selector : Value) (count : Nat) (toSuper : Bool) :
    Run Unit := do
  let species ← if toSuper then superclassOfMethod else classOf (← operand count)
  sender selector count species

def send (depth : Nat) : (selector : Value) → (count : Nat) → (toSuper : Bool) → Run Unit :=
  sendBy (sendToClass depth)

end Run

/-- How deep messages that perform messages may be nested. -/
def Machine.nestingLimit : Nat := 1000

end Smalltalk
