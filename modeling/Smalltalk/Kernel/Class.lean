import Smalltalk.Layout
import Smalltalk.Object.Format

namespace Smalltalk

/-! The classes that a machine cannot do without, in the order in which they are
made. -/

/-- A class of the kernel. -/
inductive KernelClass where
  | metaclass
  | object
  | undefinedObject
  | trueClass
  | falseClass
  | smallInteger
  | float
  | largePositiveInteger
  | character
  | symbol
  | string
  | byteArray
  | array
  | bitmap
  | compiledMethod
  | methodDictionary
  | methodContext
  | blockContext
  | point
  | message
  | association
  | semaphore
  | process
  | linkedList
  | processScheduler
deriving DecidableEq, Inhabited, Repr

namespace KernelClass

/-- All kernel classes; the first is the class of them all. -/
def all : List KernelClass :=
  [metaclass, object, undefinedObject, trueClass, falseClass, smallInteger, float,
    largePositiveInteger, character, symbol, string, byteArray, array, bitmap, compiledMethod,
    methodDictionary, methodContext, blockContext, point, message, association, semaphore,
    process, linkedList, processScheduler]

theorem mem_all (species : KernelClass) : species ∈ all := by
  cases species <;> simp [all]

/-- The name under which a class is known in the image. -/
def name : KernelClass → String
  | metaclass => "Class"
  | object => "Object"
  | undefinedObject => "UndefinedObject"
  | trueClass => "True"
  | falseClass => "False"
  | smallInteger => "SmallInteger"
  | float => "Float"
  | largePositiveInteger => "LargePositiveInteger"
  | character => "Character"
  | symbol => "Symbol"
  | string => "String"
  | byteArray => "ByteArray"
  | array => "Array"
  | bitmap => "Bitmap"
  | compiledMethod => "CompiledMethod"
  | methodDictionary => "MethodDictionary"
  | methodContext => "MethodContext"
  | blockContext => "BlockContext"
  | point => "Point"
  | message => "Message"
  | association => "Association"
  | semaphore => "Semaphore"
  | process => "Process"
  | linkedList => "LinkedList"
  | processScheduler => "ProcessorScheduler"

/-- The number of named fields of an instance. -/
def fieldCount : KernelClass → Nat
  | metaclass => ClassField.count
  | character => 1
  | methodDictionary => 2
  | methodContext => ContextField.frame
  | blockContext => ContextField.frame
  | point => 2
  | message => 3
  | association => 2
  | semaphore => 3
  | process => 4
  | linkedList => 2
  | processScheduler => 2
  | _ => 0

/-- The format of an instance. -/
def instanceFormat : KernelClass → Nat
  | float => Format.words
  | bitmap => Format.words
  | largePositiveInteger => Format.bytes
  | symbol => Format.bytes
  | string => Format.bytes
  | byteArray => Format.bytes
  | array => Format.indexable
  | compiledMethod => Format.method
  | methodDictionary => Format.fixedIndexable
  | methodContext => Format.fixedIndexable
  | blockContext => Format.fixedIndexable
  | object => Format.empty
  | undefinedObject => Format.empty
  | trueClass => Format.empty
  | falseClass => Format.empty
  | smallInteger => Format.empty
  | _ => Format.fixed

end KernelClass

/-- The messages that have an instruction of their own, with the numbers of
their arguments. -/
def specialSelectors : List (String × Nat) :=
  [("+", 1), ("-", 1), ("<", 1), (">", 1), ("<=", 1), (">=", 1), ("=", 1), ("~=", 1),
    ("*", 1), ("/", 1), ("\\\\", 1), ("@", 1), ("bitShift:", 1), ("//", 1), ("bitAnd:", 1),
    ("bitOr:", 1), ("at:", 1), ("at:put:", 2), ("size", 0), ("next", 0), ("nextPut:", 1),
    ("atEnd", 0), ("==", 1), ("class", 0), ("blockCopy:", 1), ("value", 0), ("value:", 1),
    ("do:", 1), ("new", 0), ("new:", 1), ("x", 0), ("y", 0)]

end Smalltalk
