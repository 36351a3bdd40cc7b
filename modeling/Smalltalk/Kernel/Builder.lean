import Smalltalk.Kernel.Class
import Smalltalk.Machine.Basic
import Smalltalk.MethodDictionary

namespace Smalltalk

/-! A kernel under construction: a heap, the classes made so far and the symbols
by their names. Objects get consecutive identity hashes. -/

/-- A kernel under construction. Classes and well-known objects that have not
been made yet stand at the first slot. -/
structure Kernel where
  heap : Heap
  config : Config
  nil : Value := .object 0
  falseObject : Value := .object 0
  trueObject : Value := .object 0
  classes : KernelClass → Value := fun _ => .object 0
  specials : Value := .object 0
  scheduler : Value := .object 0
  mainProcess : Value := .object 0
  symbols : List (String × Value) := []
  lastHash : Nat := 0
  /-- The first thing that went wrong. -/
  failure : Option Stop := none

/-- A step of construction. -/
abbrev Build := EStateM Stop Kernel

namespace Build

/-- The result of an access to memory, or its error. -/
def ofMemory {α : Type} : Except MemoryError α → Build α
  | .ok result => pure result
  | .error error => throw (.error (.memory error))

def read {α : Type} (query : Heap → Except MemoryError α) : Build α := do
  ofMemory (query (← get).heap)

def fetch (object : Value) (index : Nat) : Build Value := read (·.fetch object index)

def fetchInt (object : Value) (index : Nat) : Build Int := read (·.fetchInt object index)

def store (object : Value) (index : Nat) (value : Value) : Build Unit := do
  let heap ← read (·.store object index value)
  modify fun kernel => { kernel with heap }

def getNil : Build Value := return (← get).nil

def classAt (species : KernelClass) : Build Value := return (← get).classes species

def setClass (object species : Value) : Build Unit :=
  modify fun kernel =>
    { kernel with heap := kernel.heap.update object fun found => { found with species } }

/-! ## Objects -/

/-- Register an object under the next hash. -/
def allocate (species : Value) (format : Nat) (body : Body) : Build Value := do
  modify fun kernel => { kernel with lastHash := (kernel.lastHash + 1) % 4096 }
  let hash := (← get).lastHash
  let (value, heap) ← read (·.registerLoaded { species, format, hash, body })
  modify fun kernel => { kernel with heap }
  return value

/-- An object with fields; arrays have indexable ones. -/
def fields (species : Value) (fields : Array Value) : Build Value := do
  let format := if species = (← classAt .array) then Format.indexable else Format.fixed
  allocate species format (.pointers fields)

/-- The unique symbol of a name. -/
def intern (name : String) : Build Value := do
  match (← get).symbols.lookup name with
  | some symbol => return symbol
  | none =>
    let bytes := Utf8.encode name
    let symbol ← allocate (← classAt .symbol) (Format.withPadding Format.bytes bytes.size)
      (.bytes bytes)
    modify fun kernel => { kernel with symbols := (name, symbol) :: kernel.symbols }
    return symbol

/-- A compiled method; the header comes before the literals. -/
def method (header : MethodHeader) (literals : Array Value) (bytecode : Array UInt8) :
    Build Value := do
  allocate (← classAt .compiledMethod) (Format.withPadding Format.method bytecode.size)
    (.method (#[header.value] ++ literals) bytecode)

/-! ## Method dictionaries -/

/-- The number of selectors that a dictionary has room for at first. -/
def initialCapacity : Nat := 32

def emptyDictionary (capacity : Nat) : Build Value := do
  let nil ← getNil
  let methods ← allocate (← classAt .array) Format.indexable
    (.pointers (Array.replicate capacity nil))
  allocate (← classAt .methodDictionary) Format.fixedIndexable
    (.pointers (#[.zero, methods] ++ Array.replicate capacity nil))

/-- The number of selectors that a dictionary has room for. -/
def capacityOf (dictionary : Value) : Build Nat := do
  return (← get).heap.pointerCount dictionary - DictionaryField.selectors

/-- The first probe that holds the selector or is empty. -/
def vacancy (dictionary selector : Value) : List Nat → Build Nat
  | [] => throw .endlessChain
  | place :: rest => do
    let candidate ← fetch dictionary (DictionaryField.selectors + place)
    if candidate = selector ∨ candidate = (← getNil) then return place
    vacancy dictionary selector rest

/-- Put a method under its selector, in place of the one that is there. -/
def insertMethod (dictionary selector method : Value) : Build Unit := do
  let capacity ← capacityOf dictionary
  let start := (← get).heap.hashOf selector % MethodDictionary.ceilingPowerOfTwo capacity
  let probes := start :: List.range' (start + 1) (capacity - (start + 1)) ++ List.range capacity
  let place ← vacancy dictionary selector probes
  let index := DictionaryField.selectors + place
  if (← fetch dictionary index) = (← getNil) then
    let tally ← fetchInt dictionary DictionaryField.tally
    store dictionary DictionaryField.tally (.ofInt (tally + 1))
  store dictionary index selector
  store (← fetch dictionary DictionaryField.methods) place method

/-- Insert the entries of a dictionary at the given places into another one. -/
def insertAll (target source methods : Value) : List Nat → Build Unit
  | [] => return
  | place :: rest => do
    let selector ← fetch source (DictionaryField.selectors + place)
    if selector ≠ (← getNil) then
      insertMethod target selector (← fetch methods place)
    insertAll target source methods rest

/-- Give a class a larger dictionary with the same entries. -/
def growDictionary (species old : Value) (capacity : Nat) : Build Value := do
  let dictionary ← emptyDictionary capacity
  let methods ← fetch old DictionaryField.methods
  insertAll dictionary old methods (List.range (← capacityOf old))
  store species ClassField.methodDictionary dictionary
  return dictionary

/-- Install a method in a class. A dictionary is grown before it is more than
three quarters full. -/
def install (species : Value) (name : String) (method : Value) : Build Unit := do
  let selector ← intern name
  let dictionary ← fetch species ClassField.methodDictionary
  let capacity ← capacityOf dictionary
  let tally ← fetchInt dictionary DictionaryField.tally
  let dictionary ←
    if (capacity * 3 : Int) < (tally + 1) * 4 then growDictionary species dictionary (capacity * 2)
    else pure dictionary
  insertMethod dictionary selector method

/-! ## Classes -/

/-- A class with an empty method dictionary and no name yet. -/
def defineClass (superclass : Value) (species : KernelClass) : Build Value := do
  let nil ← getNil
  let dictionary ← emptyDictionary initialCapacity
  let format := ClassFormat.pack species.fieldCount species.instanceFormat
  allocate (← classAt .metaclass) Format.fixed
    (.pointers #[superclass, dictionary, format.value, nil, nil, nil, nil])

/-! ## Contexts and processes -/

/-- A context that is about to run a method from its first byte. -/
def context (method receiver : Value) : Build Value := do
  let kernel ← get
  match ← read (·.methodHeader? method) with
  | none => throw (.error (.memory (.notPointers method)))
  | some header =>
    let frame :=
      if header.needsLargeFrame then kernel.config.largeFrameSize
      else kernel.config.smallFrameSize
    let start : Array Value :=
      #[kernel.nil, .ofInt header.firstPc, .ofInt header.temporaryCount, method, kernel.nil,
        receiver]
    allocate (← classAt .methodContext) Format.fixedIndexable
      (.pointers (start ++ Array.replicate frame kernel.nil))

/-- A process that is suspended in a context. -/
def process (priority : Nat) (context : Value) : Build Value := do
  let nil ← getNil
  fields (← classAt .process) #[nil, context, .ofWrapped priority, nil]

/-- Put a process at the end of the ready list of its priority. -/
def makeReady (process : Value) : Build Unit := do
  let priority := max 1 (← fetchInt process ProcessField.priority).toNat
  let lists ← fetch (← get).scheduler SchedulerField.processLists
  let list ← fetch lists (priority - 1)
  let last ← fetch list ListField.lastLink
  if last = (← getNil) then
    store list ListField.firstLink process
  else
    store last ProcessField.nextLink process
  store list ListField.lastLink process
  store process ProcessField.myList list

/-- A semaphore without waiting processes and without signals. -/
def semaphore : Build Value := do
  let nil ← getNil
  fields (← classAt .semaphore) #[nil, nil, .zero]

end Build

end Smalltalk
