import Smalltalk.Kernel.Builder
import Smalltalk.Machine.Step

namespace Smalltalk

/-! The kernel that a machine can be started on without an image: the kernel
classes, the scheduler with one process, and the special objects array. -/

namespace Build

/-- The number of priorities. -/
def priorityLevels : Nat := 8

/-- The priority of the process that a machine starts with. -/
def userPriority : Nat := 4

/-- Give a method dictionary and its method array the classes that were made
after them. -/
def adoptDictionary (species : Value) : Build Unit := do
  let dictionary ← fetch species ClassField.methodDictionary
  let methods ← fetch dictionary DictionaryField.methods
  setClass dictionary (← classAt .methodDictionary)
  setClass methods (← classAt .array)

/-- Make the subclasses of the root class, in order. -/
def defineSubclasses (root : Value) : List KernelClass → Build (List (KernelClass × Value))
  | [] => return []
  | species :: rest => do
    let value ← defineClass root species
    return (species, value) :: (← defineSubclasses root rest)

/-- Make nil and the classes. Nil comes before its class and the class of all
classes before itself, so both get their class afterwards. -/
def makeClasses : Build Unit := do
  let nil ← allocate (.object 0) Format.empty (.pointers #[])
  modify fun kernel => { kernel with nil }
  let metaclass ← allocate (.object 0) Format.fixed (.pointers #[])
  modify fun kernel =>
    { kernel with
      classes := fun species => if species = .metaclass then metaclass else kernel.classes species }
  setClass metaclass metaclass
  let root ← defineClass nil .object
  let subclasses ← defineSubclasses root (KernelClass.all.drop 2)
  let made := (.metaclass, metaclass) :: (.object, root) :: subclasses
  modify fun kernel =>
    { kernel with classes := fun species => (made.lookup species).getD (.object 0) }
  setClass nil (← classAt .undefinedObject)
  ((.object, root) :: subclasses).forM fun (_, value) => adoptDictionary value
  let dictionary ← emptyDictionary initialCapacity
  let format :=
    ClassFormat.pack KernelClass.metaclass.fieldCount KernelClass.metaclass.instanceFormat
  modify fun kernel =>
    { kernel with
      heap := kernel.heap.updateBody metaclass fun _ =>
        .pointers #[root, dictionary, format.value, nil, nil, nil, nil] }

/-- Make false and true, and name the classes. -/
def makeConstants : Build Unit := do
  let falseObject ← allocate (← classAt .falseClass) Format.empty (.pointers #[])
  let trueObject ← allocate (← classAt .trueClass) Format.empty (.pointers #[])
  modify fun kernel => { kernel with falseObject, trueObject }
  KernelClass.all.forM fun species => do
    let symbol ← intern species.name
    store (← classAt species) ClassField.name symbol

/-- Run a step a number of times and collect what it makes. -/
def collect (step : Nat → Build Value) : (count start : Nat) → Build (List Value)
  | 0, _ => return []
  | count + 1, start => do
    let value ← step start
    return value :: (← collect step count (start + 1))

/-- Make the scheduler with its process; answers the association that names
it. -/
def makeScheduler : Build Value := do
  let nil ← getNil
  let lists ← collect (fun _ => do fields (← classAt .linkedList) #[nil, nil]) priorityLevels 0
  let processLists ← fields (← classAt .array) lists.toArray
  let mainProcess ← process userPriority nil
  let scheduler ← fields (← classAt .processScheduler) #[processLists, mainProcess]
  let name ← intern "Processor"
  modify fun kernel => { kernel with scheduler, mainProcess }
  fields (← classAt .association) #[name, scheduler]

/-- Make the array of special selectors and their argument counts. -/
def makeSpecialSelectors : Build Value := do
  let entries ← specialSelectors.mapM fun (name, count) => do
    return [← intern name, .ofInt count]
  fields (← classAt .array) entries.flatten.toArray

/-- Make the table of the 256 characters. -/
def makeCharacterTable : Build Value := do
  let characters ← collect
    (fun code => do fields (← classAt .character) #[.ofInt code]) 256 0
  fields (← classAt .array) characters.toArray

/-- Make the special objects array. -/
def makeSpecials (scheduler selectors characters : Value) : Build Value := do
  let doesNotUnderstand ← intern "doesNotUnderstand:"
  let cannotReturn ← intern "cannotReturn:"
  let mustBeBoolean ← intern "mustBeBoolean"
  let kernel ← get
  let compactClasses ← fields (kernel.classes .array) (Array.replicate 32 kernel.nil)
  let entries : List (Nat × Value) :=
    [ (Special.false, kernel.falseObject),
      (Special.true, kernel.trueObject),
      (Special.schedulerAssociation, scheduler),
      (Special.bitmapClass, kernel.classes .bitmap),
      (Special.smallIntegerClass, kernel.classes .smallInteger),
      (Special.stringClass, kernel.classes .string),
      (Special.arrayClass, kernel.classes .array),
      (Special.floatClass, kernel.classes .float),
      (Special.methodContextClass, kernel.classes .methodContext),
      (Special.blockContextClass, kernel.classes .blockContext),
      (Special.pointClass, kernel.classes .point),
      (Special.largePositiveIntegerClass, kernel.classes .largePositiveInteger),
      (Special.messageClass, kernel.classes .message),
      (Special.compiledMethodClass, kernel.classes .compiledMethod),
      (Special.semaphoreClass, kernel.classes .semaphore),
      (Special.characterClass, kernel.classes .character),
      (Special.doesNotUnderstand, doesNotUnderstand),
      (Special.cannotReturn, cannotReturn),
      (Special.specialSelectors, selectors),
      (Special.characterTable, characters),
      (Special.mustBeBoolean, mustBeBoolean),
      (Special.byteArrayClass, kernel.classes .byteArray),
      (Special.processClass, kernel.classes .process),
      (Special.compactClasses, compactClasses) ]
  let array := (List.range Special.count).map fun index =>
    (entries.lookup index).getD kernel.nil
  fields (kernel.classes .array) array.toArray

/-- Make the whole kernel. -/
def genesis : Build Unit := do
  makeClasses
  makeConstants
  let scheduler ← makeScheduler
  let selectors ← makeSpecialSelectors
  let characters ← makeCharacterTable
  let specials ← makeSpecials scheduler selectors characters
  modify fun kernel => { kernel with specials }

end Build

namespace Kernel

/-- A kernel with the sizes of a configuration. -/
def ofConfig (config : Config) : Except Stop Kernel :=
  match Build.genesis { heap := .ofConfig config, config } with
  | .ok _ kernel => .ok kernel
  | .error stop _ => .error stop

/-- Take a step of construction. One that fails makes nil, and the first failure
is kept. -/
def attempt (kernel : Kernel) (step : Build Value) : Value × Kernel :=
  match step kernel with
  | .ok value kernel => (value, kernel)
  | .error stop kernel =>
    (kernel.nil, { kernel with failure := kernel.failure.or (some stop) })

/-- Take a step of construction that makes nothing. -/
def attemptUnit (kernel : Kernel) (step : Build Unit) : Kernel :=
  (kernel.attempt do step; Build.getNil).2

/-- Start a machine whose process runs a method, with nil as its receiver. What
has been made so far becomes old. -/
def start (kernel : Kernel) (method : Value) : Except Stop Machine := do
  let (context, kernel) := kernel.attempt (Build.context method kernel.nil)
  match kernel.heap.store kernel.mainProcess ProcessField.suspendedContext context with
  | .error error => throw (.error (.memory error))
  | .ok heap =>
    match kernel.failure with
    | some stop => throw stop
    | none => Machine.start heap.tenure kernel.specials kernel.config {}

end Kernel

end Smalltalk
