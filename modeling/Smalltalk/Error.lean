import Smalltalk.Config
import Smalltalk.Text.Hexadecimal
import Smalltalk.Value

namespace Smalltalk

/-! What can go wrong, by cause, and how each cause is worded. -/

/-- Why an access to the heap or a registration fails. -/
inductive MemoryError where
  | tableFull (capacity : Nat)
  | invalidReference (value : Value)
  | notPointers (value : Value)
  | indexOutOfBounds (object : Value) (index : Nat)
  | notSmallInteger (value : Value)
  | notAClass (value : Value)
deriving DecidableEq, Repr

namespace MemoryError

def message : MemoryError → String
  | tableFull capacity => s!"object table has reached its capacity of {capacity} slots"
  | invalidReference value => value.describe ++ " does not reference a live object"
  | notPointers value => value.describe ++ " has no pointer fields"
  | indexOutOfBounds object index => s!"index {index} out of bounds for " ++ object.describe
  | notSmallInteger value => "expected a SmallInteger, got " ++ value.describe
  | notAClass value => value.describe ++ " is not a class"

end MemoryError

/-- Why an exchange of identities is refused. -/
inductive BecomeError where
  | differentLengths
  | nonObjectInSource (value : Value)
  | repeatedInSource (value : Value)
  | nonObjectInTarget (value : Value)
  | repeatedInTarget (value : Value)
  | overlapping (value : Value)
deriving DecidableEq, Repr

namespace BecomeError

def message : BecomeError → String
  | differentLengths => "source and target arrays differ in length"
  | nonObjectInSource value => "source array holds the non-object " ++ value.describe
  | repeatedInSource value => value.describe ++ " is repeated in the source array"
  | nonObjectInTarget value => "target array holds the non-object " ++ value.describe
  | repeatedInTarget value => value.describe ++ " is repeated in the target array"
  | overlapping value => value.describe ++ " appears in both source and target arrays"

end BecomeError

/-- Why bytes of an image cannot be had. -/
inductive ReadError where
  /-- The data end in the middle of what is being read. -/
  | endOfData
  /-- The data end before the header does. -/
  | endOfHeader
  /-- The compressed data end before the stream does. -/
  | endOfArchive
  | notAnArchive
  | headerTextTooLong
  | corruptArchive
  | checksumMismatch
  | noSuchFile
deriving DecidableEq, Repr

namespace ReadError

def message : ReadError → String
  | endOfData => "failed to fill whole buffer"
  | endOfHeader => "image header truncated"
  | endOfArchive => "unexpected end of file"
  | notAnArchive => "invalid gzip header"
  | headerTextTooLong => "gzip header field too long"
  | corruptArchive => "corrupt deflate stream"
  | checksumMismatch => "corrupt gzip stream does not have a matching checksum"
  | noSuchFile => "No such file or directory (os error 2)"

end ReadError

/-- The objects that an image cannot do without. -/
inductive EssentialObject where
  | specialObjects
  | compactClasses
  | compactClass
deriving DecidableEq, Repr

namespace EssentialObject

def describe : EssentialObject → String
  | specialObjects => "special objects array"
  | compactClasses => "compact classes array"
  | compactClass => "compact class"

end EssentialObject

/-- Why an image cannot be loaded. -/
inductive ImageError where
  | unreadable (reason : ReadError)
  | badMagic (word : UInt32)
  | freeBlock (offset : Nat)
  | objectOverrun (offset words : Nat)
  | unknownReference (address holder : UInt32)
  | missingObject (object : EssentialObject)
  | memory (error : MemoryError)
deriving DecidableEq, Repr

namespace ImageError

def message : ImageError → String
  | unreadable reason => "reading image: " ++ reason.message
  | badMagic word => "bad image magic " ++ Hexadecimal.marked word.toNat 8
  | freeBlock offset => "unexpected free block at offset " ++ Hexadecimal.marked offset 1
  | objectOverrun offset words =>
    "object at offset " ++ Hexadecimal.marked offset 1
      ++ s!" with {words} words runs past the end of memory"
  | unknownReference address holder =>
    "unknown oop " ++ Hexadecimal.marked address.toNat 1 ++ " referenced from the object at "
      ++ Hexadecimal.marked holder.toNat 1
  | missingObject object => "image has no " ++ object.describe
  | memory error => error.message

end ImageError

/-- Why a running machine stops. A primitive that merely fails is no error: its
message is sent instead. -/
inductive MachineError where
  | reservedOpcode (opcode : UInt8) (pc : Nat)
  | cannotReturn (target : Value)
  | brokenSenderChain (target : Value)
  | recursiveDoesNotUnderstand (selector : String)
  | notAMethod (value : Value)
  | pcOutOfRange (pc : Nat)
  | noRunnableProcess
  | config (reason : ConfigError)
  | memory (error : MemoryError)
deriving DecidableEq, Repr

namespace MachineError

def message : MachineError → String
  | reservedOpcode opcode pc =>
    let code := opcode.toNat
    s!"reserved bytecode {code} at pc {pc}"
  | cannotReturn target =>
    "cannot return to " ++ target.describe ++ ": context is dead or missing"
  | brokenSenderChain target => "sender chain broken before reaching " ++ target.describe
  | recursiveDoesNotUnderstand selector =>
    "recursive doesNotUnderstand: for selector " ++ selector
  | notAMethod value => value.describe ++ " is not a compiled method"
  | pcOutOfRange pc => s!"pc {pc} runs past the end of the method"
  | noRunnableProcess => "no active process to resume"
  | config reason => "invalid configuration: " ++ reason.message
  | memory error => error.message

end MachineError

end Smalltalk
