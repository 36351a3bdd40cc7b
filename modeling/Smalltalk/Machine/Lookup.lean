import Smalltalk.Machine.Stack
import Smalltalk.MethodDictionary

namespace Smalltalk

/-! A message finds its method in the method dictionary of the receiver's class
or of the nearest superclass that has one for its selector. What was found is
remembered in the method cache. A message without a method is packed into a
Message and sent again as `doesNotUnderstand:`. -/

namespace Run

/-- The first method on the way from a class up to its last superclass. A chain
longer than the heap has objects never ends. -/
def methodFrom (selector : Value) : (budget : Nat) → (species : Value) → Run (Option Value)
  | budget, species => do
    let nil ← getNil
    if species = nil then return none
    match budget with
    | 0 => throw .endlessChain
    | budget + 1 =>
      modifyRegisters fun registers =>
        { registers with methodCache := registers.methodCache.countDictionaryProbe }
      let dictionary ← fetch species ClassField.methodDictionary
      match ← readHeap (·.methodAt? dictionary selector nil) with
      | some method => return some method
      | none => methodFrom selector budget (← fetch species ClassField.superclass)

/-- Ask the method cache, which counts the question. -/
def cachedMethod (selector species : Value) : Run (Option CacheEntry) :=
  modifyGet fun machine =>
    let heap := machine.heap
    let (found, methodCache) := machine.registers.methodCache.lookup selector species
      (heap.hashOf selector) (heap.hashOf species)
    (found, { machine with registers.methodCache := methodCache })

/-- Remember what a lookup found. -/
def rememberMethod (entry : CacheEntry) : Run Unit :=
  modify fun machine =>
    let heap := machine.heap
    let methodCache := machine.registers.methodCache.insert entry
      (heap.hashOf entry.selector) (heap.hashOf entry.species)
    { machine with registers.methodCache := methodCache }

/-- The method of a selector in a class, with its primitive. -/
def lookupMethod (selector species : Value) : Run (Option CacheEntry) := do
  if let some entry ← cachedMethod selector species then return some entry
  match ← methodFrom selector ((← getHeap).cells.size + 1) species with
  | none => return none
  | some method =>
    let header ← readHeap (·.methodHeader? method)
    let primitive := (header.map MethodHeader.primitive).getD 0
    let entry : CacheEntry := { selector, species, method, primitive }
    rememberMethod entry
    return some entry

/-- Find the method for the message being sent. Answers whether there is one. -/
def resolveMessage (species : Value) : Run Bool := do
  match ← lookupMethod (← getRegisters).messageSelector species with
  | none => return false
  | some entry =>
    modifyRegisters fun registers =>
      { registers with newMethod := entry.method, primitiveIndex := entry.primitive }
    return true

/-- Whether instances of the class of messages have a field for the class in
which the lookup started. -/
def messageHasLookupClass : Run Bool := do
  let format ← classFormat (← getRegisters).specials.messageClass
  return MessageField.lookupClass < format.fieldCount

/-- Put a Message that describes the message being sent in place of its
arguments. -/
def packMessage (lookupClass : Value) : Run Unit := do
  let registers ← getRegisters
  let count := registers.argumentCount
  let specials := registers.specials
  let arguments ← onHeap (HeapM.instantiate specials.arrayClass count specials.nil)
  copyOperands arguments count 0
  let fields :=
    if ← messageHasLookupClass then #[registers.messageSelector, arguments, lookupClass]
    else #[registers.messageSelector, arguments]
  let message ← register
    { species := specials.messageClass, format := Format.fixed, body := .pointers fields }
  drop count
  push message
  modifyRegisters fun registers => { registers with argumentCount := 1 }

/-- The error for a message that not even `doesNotUnderstand:` is there for. -/
def failUnderstanding (selector : Value) : Run Unit := do
  fail (.recursiveDoesNotUnderstand ((← get).textOf selector))

/-- How the method of the message being sent is searched for in a class. Answers
whether there is one. -/
abbrev Resolver := (species : Value) → Run Bool

/-- Find the method for the message being sent, or for `doesNotUnderstand:` in
its place, with a way to search for it. -/
def findMethodBy (resolve : Resolver) (species : Value) : Run Unit := do
  unless ← resolve species do
    let selector := (← getRegisters).messageSelector
    let doesNotUnderstand ← specialObject Special.doesNotUnderstand
    if selector = doesNotUnderstand then failUnderstanding selector
    packMessage species
    modifyRegisters fun registers => { registers with messageSelector := doesNotUnderstand }
    unless ← resolve species do
      failUnderstanding doesNotUnderstand

/-- Whether a class is another one or inherits from it. -/
def inheritsFrom (ancestor : Value) : (budget : Nat) → (species : Value) → Run Bool
  | budget, species => do
    if species = (← getNil) then return false
    if species = ancestor then return true
    match budget with
    | 0 => throw .endlessChain
    | budget + 1 => inheritsFrom ancestor budget (← fetch species ClassField.superclass)

end Run

end Smalltalk
