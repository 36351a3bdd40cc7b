import Smalltalk.Compression.Gzip
import Smalltalk.Heap.Registration
import Smalltalk.Image.Record
import Std.Data.HashMap

namespace Smalltalk

/-! An image is loaded in two passes. The first reads the records in order and
registers an empty object for each, so that every old address stands for a value;
the second finds the classes and fills the bodies. -/

/-- A record, where it stands and the value that was registered for it. -/
structure LoadedRecord where
  record : ImageRecord
  offset : Nat
  value : Value
deriving DecidableEq

/-- What has been loaded: the heap and the value of the special objects array. -/
structure Image where
  header : ImageHeader
  order : ByteOrder
  heap : Heap
  specialObjects : Value
deriving DecidableEq

namespace Image

/-! ## The first pass -/

/-- The object that is registered for a record before its class is known. -/
def placeholder (record : ImageRecord) : HeapObject :=
  { species := .zero
    format := record.header.format
    hash := record.header.hash
    body := .words #[] }

/-- Read the records from an offset on and register an object for each. -/
def registerFrom (space : RecordSpace) (offset : Nat) (heap : Heap)
    (loaded : Array LoadedRecord) : Except ImageError (Array LoadedRecord × Heap) :=
  if space.size ≤ offset then
    .ok (loaded, heap)
  else
    match space.readRecord offset with
    | .error error => .error error
    | .ok record =>
      match heap.registerLoaded (placeholder record) with
      | .error error => .error (.memory error)
      | .ok (value, heap) =>
        registerFrom space (offset + record.size) heap (loaded.push { record, offset, value })
termination_by space.size - offset
decreasing_by
  have := record.size_pos
  omega

/-! ## The second pass -/

/-- The records by their old addresses. -/
abbrev Directory := Std.HashMap UInt32 LoadedRecord

/-- Enter the records under their old addresses. -/
def directory (oldBase : UInt32) (loaded : Array LoadedRecord) : Directory :=
  loaded.foldl
    (fun entries entry => entries.insert (entry.record.address oldBase entry.offset) entry) ∅

/-- What the second pass needs to know of the image. -/
structure Context where
  order : ByteOrder
  oldBase : UInt32
  directory : Directory
  compactClasses : Array UInt32
  /-- The old address of the class of floats. -/
  floatClass : Option UInt32

namespace Context

/-- The value that a word stands for: an odd word is a small integer, an even one
the old address of a record. -/
def resolve (context : Context) (holder : UInt32) (word : UInt32) : Except ImageError Value :=
  if word.toNat % 2 = 1 then
    .ok (.ofWord word)
  else
    match context.directory[word]? with
    | some entry => .ok entry.value
    | none => .error (.unknownReference word holder)

/-- The values that words stand for. -/
def resolveAll (context : Context) (holder : UInt32) (words : Array UInt32) :
    Except ImageError (Array Value) :=
  words.mapM (context.resolve holder)

/-- The bytes of words, without those that the format leaves unused. -/
def unpack (context : Context) (format : Nat) (words : Array UInt32) : Array UInt8 :=
  let bytes := words.flatMap fun word => (context.order.bytes word).toArray
  bytes.take (bytes.size - format % 4)

/-- The number of values at the start of a method, as its first word says: the
header and the literals. -/
def literalCount (words : Array UInt32) : Nat := (words[0]?.getD 1).toNat / 1024 % 256 + 1

/-- The bits of a number whose high word comes first. -/
def joinWords (high low : UInt32) : UInt64 := UInt64.ofNat (high.toNat * 4294967296 + low.toNat)

/-- The body that the words of a record stand for. -/
def decodeBody (context : Context) (holder species : UInt32) (format : Nat)
    (words : Array UInt32) : Except ImageError Body := do
  if Format.isPointers format then
    return .pointers (← context.resolveAll holder words)
  else if Format.isMethod format then
    let split := literalCount words
    let literals ← context.resolveAll holder (words.take split)
    return .method literals (context.unpack format (words.drop split))
  else if Format.isBytes format then
    return .bytes (context.unpack format words)
  else
    match words.toList with
    | [high, low] =>
      if some species = context.floatClass then return .float (joinWords high low)
      else return .words words
    | _ => return .words words

/-- Find the class of a record and decode its body. -/
def decode (context : Context) (entry : LoadedRecord) : Except ImageError (Value × Body) := do
  let record := entry.record
  let holder := record.address context.oldBase entry.offset
  match record.header.speciesWord? context.compactClasses with
  | none => throw (.missingObject .compactClass)
  | some word =>
    let species ← context.resolve holder word
    return (species, ← context.decodeBody holder word record.header.format record.body)

/-- Give the object of a record its class and its body. -/
def install (context : Context) (heap : Heap) (entry : LoadedRecord) : Except ImageError Heap := do
  let (species, body) ← context.decode entry
  return heap.update entry.value fun object => { object with species, body }

end Context

/-! ## Both passes -/

/-- The record at an old address, which has to be there. -/
def essential (directory : Directory) (address : Option UInt32) (object : EssentialObject) :
    Except ImageError LoadedRecord :=
  match address.bind (directory[·]?) with
  | some entry => .ok entry
  | none => .error (.missingObject object)

/-- Load an image into a heap with the sizes of a configuration. All its objects
are old. -/
def load (source : ByteSource) (config : Config) : Except ImageError Image := do
  let order ← ImageHeader.readOrder source
  let header ← ImageHeader.read source order
  let space : RecordSpace :=
    { source, order, start := header.firstObject, size := header.endOfMemory.toNat }
  let heap := (Heap.ofConfig config).seedHash header.lastHash
  let (loaded, heap) ← registerFrom space 0 heap #[]
  let directory := directory header.oldBase loaded
  let specials ← essential directory (some header.specialObjects) .specialObjects
  let specialWords := specials.record.body
  let compactClasses ← essential directory specialWords[Special.compactClasses]? .compactClasses
  let context : Context :=
    { order
      oldBase := header.oldBase
      directory
      compactClasses := compactClasses.record.body
      floatClass := specialWords[Special.floatClass]? }
  let heap ← loaded.foldlM context.install heap
  return { header, order, heap := heap.tenure, specialObjects := specials.value }

/-- Load a compressed image. -/
def loadArchive (data : Array UInt8) (config : Config) : Except ImageError Image :=
  load (Gzip.decode data) config

end Image

end Smalltalk
