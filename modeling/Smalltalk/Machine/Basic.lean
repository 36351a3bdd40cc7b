import Smalltalk.AtCache
import Smalltalk.Device.Input
import Smalltalk.Device.Screen
import Smalltalk.Heap.Become
import Smalltalk.Heap.Enumeration
import Smalltalk.Heap.Instantiation
import Smalltalk.MethodCache
import Smalltalk.Specials
import Smalltalk.Text.Utf8
import Smalltalk.Timing

namespace Smalltalk

/-! The machine is a heap, the registers that refer into it and the devices
around it. A computation on a machine may stop with an error; what it did until
then remains done. -/

/-- The registers of the machine: everything outside the heap that refers into
it, and the numbers that belong to the running frame. The frame's program
counter and stack pointer are held here and written back to the active context
only when another one becomes active. -/
structure Registers where
  specials : Specials
  activeContext : Value
  homeContext : Value
  method : Value
  receiver : Value
  /-- The index of the next byte of the method. -/
  pc : Nat := 0
  /-- The field of the active context that holds the top of the stack. -/
  sp : Nat := 0
  /-- The method found for the message being sent. -/
  newMethod : Value
  messageSelector : Value
  lookupClass : Value
  argumentCount : Nat := 0
  primitiveIndex : Nat := 0
  methodCache : MethodCache
  atCache : AtCache
  /-- Contexts to be used again, the next one first. -/
  freeContexts : List Value := []
  freeLargeContexts : List Value := []
  /-- How many contexts at the top of the sender chain nobody else refers to. -/
  reclaimable : Nat := 0
  /-- Values kept alive for a while, the latest first. -/
  scratch : List Value := []
deriving DecidableEq, Inhabited

namespace Registers

/-- The values of the registers, caches and lists. -/
def values (registers : Registers) : List Value :=
  registers.specials.values
    ++ [registers.activeContext, registers.homeContext, registers.method, registers.receiver,
      registers.newMethod, registers.messageSelector, registers.lookupClass]
    ++ registers.methodCache.values
    ++ registers.atCache.values
    ++ registers.freeContexts
    ++ registers.freeLargeContexts
    ++ registers.scratch

/-- Change every value. -/
def map (change : Value → Value) (registers : Registers) : Registers :=
  { registers with
    specials := registers.specials.map change
    activeContext := change registers.activeContext
    homeContext := change registers.homeContext
    method := change registers.method
    receiver := change registers.receiver
    newMethod := change registers.newMethod
    messageSelector := change registers.messageSelector
    lookupClass := change registers.lookupClass
    methodCache := registers.methodCache.map change
    atCache := registers.atCache.map change
    freeContexts := registers.freeContexts.map change
    freeLargeContexts := registers.freeLargeContexts.map change
    scratch := registers.scratch.map change }

/-- Forget what the caches and the lists of free contexts hold. -/
def forget (registers : Registers) : Registers :=
  { registers with
    methodCache := registers.methodCache.clear
    atCache := registers.atCache.clear
    freeContexts := []
    freeLargeContexts := [] }

end Registers

/-- The registers are what keeps objects alive. -/
instance : RootSet Registers where
  values := Registers.values
  rename redirect := Registers.map (Value.rename redirect)
  flush := Registers.forget

/-- A virtual machine. -/
structure Machine where
  heap : Heap
  registers : Registers
  config : Config
  timing : Timing
  clock : Clock := {}
  input : InputQueue
  screen : Screen := {}
  hasQuit : Bool := false
  bytecodes : Nat := 0
deriving DecidableEq, Inhabited

/-- Why a computation on a machine does not come to its end. -/
inductive Stop where
  | error (reason : MachineError)
  /-- Following superclasses or senders leads back to where it came from, so
  that the walk has no end. -/
  | endlessChain
  /-- Messages that perform messages are nested deeper than allowed. -/
  | nestedTooDeep
  /-- An operand was asked for that is not there, and nothing is laid down for
  that case. -/
  | undefinedOperand
deriving DecidableEq

/-- How a stop is reported. -/
def Stop.message : Stop → String
  | .error reason => reason.message
  | .endlessChain => "a chain of objects leads back to itself"
  | .nestedTooDeep => "messages are nested too deep"
  | .undefinedOperand => "an operand is missing"

/-- A computation on a machine. -/
abbrev Run := EStateM Stop Machine

namespace Run

/-- Stop with an error. -/
def fail {α : Type} (reason : MachineError) : Run α := throw (.error reason)

/-- The result of an access to memory, or its error. -/
def ofMemory {α : Type} : Except MemoryError α → Run α
  | .ok result => pure result
  | .error error => fail (.memory error)

def getRegisters : Run Registers := return (← get).registers

def getHeap : Run Heap := return (← get).heap

def modifyRegisters (change : Registers → Registers) : Run Unit :=
  modify fun machine => { machine with registers := change machine.registers }

def modifyHeap (change : Heap → Heap) : Run Unit :=
  modify fun machine => { machine with heap := change machine.heap }

/-- Ask the heap. -/
def readHeap {α : Type} (query : Heap → Except MemoryError α) : Run α := fun machine =>
  match query machine.heap with
  | .ok result => .ok result machine
  | .error error => .error (.error (.memory error)) machine

/-- Run a computation that may collect; the registers are its roots. -/
def onHeap {α : Type} (run : HeapM Registers α) : Run α := fun machine =>
  match run ⟨machine.heap, machine.registers⟩ with
  | .ok result after =>
    .ok result { machine with heap := after.heap, registers := after.roots }
  | .error error after =>
    .error (.error (.memory error)) { machine with heap := after.heap, registers := after.roots }

/-- Apply a collection to the heap and the registers. -/
def collect (change : Rooted Registers → Rooted Registers) : Run Unit :=
  modify fun machine =>
    let after := change ⟨machine.heap, machine.registers⟩
    { machine with heap := after.heap, registers := after.roots }

/-! ## Objects -/

def fetch (object : Value) (index : Nat) : Run Value := readHeap (·.fetch object index)

def fetchInt (object : Value) (index : Nat) : Run Int := readHeap (·.fetchInt object index)

def object (value : Value) : Run HeapObject := readHeap (·.object value)

def store (object : Value) (index : Nat) (value : Value) : Run Unit := fun machine =>
  match machine.heap.store object index value with
  | .ok heap => .ok () { machine with heap }
  | .error error => .error (.error (.memory error)) machine

def register (object : HeapObject) : Run Value := onHeap (HeapM.register object)

def getNil : Run Value := return (← getRegisters).specials.nil

/-- The header of a method, which has to be one. -/
def methodHeader (method : Value) : Run MethodHeader := do
  match ← readHeap (·.methodHeader? method) with
  | some header => return header
  | none => fail (.notAMethod method)

def specialObject (index : Nat) : Run Value := do
  fetch (← getRegisters).specials.array index

/-- The class of a value. -/
def classOf (value : Value) : Run Value := do
  if value.isSmall then
    return (← getRegisters).specials.smallIntegerClass
  else
    return (← object value).species

/-- The instance description of a class. -/
def classFormat (species : Value) : Run ClassFormat := readHeap (·.classFormat species)

/-- Read the special objects again from another array. -/
def refreshSpecials (array : Value) : Run Unit := do
  let specials ← readHeap (Specials.ofArray · array)
  modifyRegisters fun registers => { registers with specials }

end Run

namespace Machine

/-- Whether a value is a method context or a block context. -/
def isContext (machine : Machine) (value : Value) : Bool :=
  (machine.heap.get? value).any fun object =>
    object.species = machine.registers.specials.methodContextClass
      ∨ object.species = machine.registers.specials.blockContextClass

/-- The text of a symbol or string; anything else is described. -/
def textOf (machine : Machine) (value : Value) : String :=
  match (machine.heap.get? value).bind HeapObject.bytes? with
  | some bytes => Utf8.text bytes
  | none => value.describe

end Machine

end Smalltalk
