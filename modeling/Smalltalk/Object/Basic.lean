import Smalltalk.Object.ClassFormat
import Smalltalk.Object.MethodHeader

namespace Smalltalk

/-! Heap objects. An object knows its class, the format code it was made with,
a twelve-bit identity hash and its body, which holds either values that the
collector follows or raw data that it does not. -/

/-- What an object holds. The first literal of a method is its header; the
number of a float is kept as its sixty-four bits. -/
inductive Body where
  | pointers (fields : Array Value)
  | words (data : Array UInt32)
  | bytes (data : Array UInt8)
  | method (literals : Array Value) (bytecode : Array UInt8)
  | float (bits : UInt64)
deriving DecidableEq, Inhabited

namespace Body

/-- The part that holds values. -/
def pointers? : Body → Option (Array Value)
  | pointers fields => some fields
  | method literals _ => some literals
  | _ => none

/-- The part that holds bytes. -/
def bytes? : Body → Option (Array UInt8)
  | bytes data => some data
  | method _ bytecode => some bytecode
  | _ => none

def words? : Body → Option (Array UInt32)
  | words data => some data
  | _ => none

def float? : Body → Option UInt64
  | float bits => some bits
  | _ => none

/-- Change the values of a body; a body without values stays as it is. -/
def mapPointers (change : Array Value → Array Value) : Body → Body
  | pointers fields => pointers (change fields)
  | method literals bytecode => method (change literals) bytecode
  | body => body

/-- Change the bytes of a body; a body without bytes stays as it is. -/
def mapBytes (change : Array UInt8 → Array UInt8) : Body → Body
  | bytes data => bytes (change data)
  | method literals bytecode => method literals (change bytecode)
  | body => body

/-- Change the words of a body; a body without words stays as it is. -/
def mapWords (change : Array UInt32 → Array UInt32) : Body → Body
  | words data => words (change data)
  | body => body

/-- The number of values. -/
def pointerCount (body : Body) : Nat := (body.pointers?.map Array.size).getD 0

/-- The length of the raw part in its own unit; a float is two words. -/
def rawLength : Body → Nat
  | pointers _ => 0
  | words data => data.size
  | bytes data => data.size
  | method _ bytecode => bytecode.size
  | float _ => 2

@[simp] theorem pointers?_mapPointers (change : Array Value → Array Value) (body : Body) :
    (body.mapPointers change).pointers? = body.pointers?.map change := by
  cases body <;> rfl

@[simp] theorem bytes?_mapPointers (change : Array Value → Array Value) (body : Body) :
    (body.mapPointers change).bytes? = body.bytes? := by
  cases body <;> rfl

@[simp] theorem bytes?_mapBytes (change : Array UInt8 → Array UInt8) (body : Body) :
    (body.mapBytes change).bytes? = body.bytes?.map change := by
  cases body <;> rfl

@[simp] theorem pointers?_mapBytes (change : Array UInt8 → Array UInt8) (body : Body) :
    (body.mapBytes change).pointers? = body.pointers? := by
  cases body <;> rfl

@[simp] theorem words?_mapWords (change : Array UInt32 → Array UInt32) (body : Body) :
    (body.mapWords change).words? = body.words?.map change := by
  cases body <;> rfl

@[simp] theorem pointers?_mapWords (change : Array UInt32 → Array UInt32) (body : Body) :
    (body.mapWords change).pointers? = body.pointers? := by
  cases body <;> rfl

end Body

/-- An object of the heap. -/
structure HeapObject where
  species : Value
  format : Nat
  hash : Nat := 0
  body : Body
deriving DecidableEq, Inhabited

namespace HeapObject

def pointers? (object : HeapObject) : Option (Array Value) := object.body.pointers?

def bytes? (object : HeapObject) : Option (Array UInt8) := object.body.bytes?

def words? (object : HeapObject) : Option (Array UInt32) := object.body.words?

def pointerCount (object : HeapObject) : Nat := object.body.pointerCount

/-- The values that an object refers to: its class, then what its body holds. -/
def references (object : HeapObject) : List Value :=
  object.species :: (object.pointers?.getD #[]).toList

/-- The slots that an object refers to. -/
def successors (object : HeapObject) : List Nat := object.references.filterMap Value.slot?

/-- The header of a compiled method. -/
def methodHeader? (object : HeapObject) : Option MethodHeader :=
  match object.body with
  | .method literals _ => (literals[0]?.bind Value.int?).map MethodHeader.mk
  | _ => none

/-- Redirect every reference of an object. -/
def rename (redirect : Nat → Nat) (object : HeapObject) : HeapObject :=
  { object with
    species := object.species.rename redirect
    body := object.body.mapPointers (·.map (·.rename redirect)) }

@[simp] theorem references_rename (redirect : Nat → Nat) (object : HeapObject) :
    (object.rename redirect).references
      = object.references.map (Value.rename redirect) := by
  cases object with
  | mk species format hash body => cases body <;> simp [rename, references, pointers?,
      Body.mapPointers, Body.pointers?]

end HeapObject

end Smalltalk
