import Smalltalk.Proofs.Image.Reading

namespace Smalltalk

/-! What an image is written from. The objects of a snapshot refer to each other by
their places in it; in the image these references become old addresses, which
depend on the sizes of all objects that stand before. -/

/-- Which header an object is written with, and how it names its class. -/
inductive SavedHeader where
  /-- The class has a number among the compact classes, which count from one. -/
  | compact (number : Nat)
  /-- The class is named by a word before the base word. -/
  | withClass (species : Nat)
  /-- The class and the number of words stand before the base word. -/
  | withSize (species : Nat)
deriving DecidableEq

namespace SavedHeader

/-- The number of words that the header is written as. -/
def wordCount : SavedHeader → Nat
  | compact _ => 1
  | withClass _ => 2
  | withSize _ => 3

theorem wordCount_pos (header : SavedHeader) : 0 < header.wordCount := by
  cases header <;> simp [wordCount]

end SavedHeader

/-- What an object holds. A reference is the place of an object in the snapshot. -/
inductive SavedBody where
  | pointers (fields : List Value)
  | words (data : List UInt32)
  /-- All bytes of the last word are given, also those that are not used. -/
  | bytes (data : List UInt8)
  | method (header : SmallInt) (literals : List Value) (bytecode : List UInt8)
deriving DecidableEq

namespace SavedBody

/-- The values at the start of a body; those of a method begin with its header. -/
def values : SavedBody → List Value
  | pointers fields => fields
  | method header literals _ => .small header :: literals
  | _ => []

/-- The number of words that the body is written as. -/
def wordCount : SavedBody → Nat
  | pointers fields => fields.length
  | words data => data.length
  | bytes data => data.length / 4
  | method _ literals bytecode => literals.length + 1 + bytecode.length / 4

/-- The body is of the kind that a format stands for. Bytes fill whole words, and
a method has the literals that its header announces. -/
def Suits (format : Nat) : SavedBody → Prop
  | pointers _ => Format.isPointers format = true
  | words _ => Format.isWords format = true
  | bytes data => Format.isBytes format = true ∧ data.length % 4 = 0
  | method header literals bytecode =>
    Format.isMethod format = true ∧ literals.length = (MethodHeader.mk header.val).literalCount ∧
      bytecode.length % 4 = 0

instance (format : Nat) : DecidablePred (Suits format)
  | pointers _ => inferInstanceAs (Decidable (_ = _))
  | words _ => inferInstanceAs (Decidable (_ = _))
  | bytes _ => inferInstanceAs (Decidable (_ ∧ _))
  | method _ _ _ => inferInstanceAs (Decidable (_ ∧ _))

end SavedBody

/-- An object to be written. -/
structure SavedObject where
  header : SavedHeader
  format : Nat
  hash : Nat
  body : SavedBody
deriving DecidableEq

namespace SavedObject

/-- The number of bytes that an object takes. -/
def size (object : SavedObject) : Nat := 4 * (object.header.wordCount + object.body.wordCount)

/-- The number of bytes that objects take. -/
def totalSize : List SavedObject → Nat
  | [] => 0
  | object :: rest => object.size + totalSize rest

theorem totalSize_append_singleton (objects : List SavedObject) (object : SavedObject) :
    totalSize (objects ++ [object]) = totalSize objects + object.size := by
  induction objects with
  | nil => simp [totalSize]
  | cons first rest ih => simp [totalSize, ih, Nat.add_assoc]

/-- The base word of an object, with what its header adds: the mark of its kind,
the number of words, one more than the body has, and the number of the class. -/
def baseWord (object : SavedObject) (mark count number : Nat) : UInt32 :=
  UInt32.ofNat
    (mark + 4 * count + 256 * object.format + 4096 * number + 131072 * object.hash)

end SavedObject

/-- The objects of an image and what else is written into it. -/
structure Snapshot where
  objects : List SavedObject
  order : ByteOrder
  /-- The address that the first byte of the objects is given. -/
  oldBase : UInt32
  /-- The place of the special objects array. -/
  specials : Nat
  headerSize : UInt32
  /-- What stands between the words of the header and the first object. -/
  padding : List UInt8
  lastHash : UInt32
  windowSize : UInt32
  fullScreen : UInt32
  extraMemory : UInt32

namespace Snapshot

variable {snapshot : Snapshot}

/-! ## The image of a snapshot -/

/-- The number of bytes before an object. -/
def offset (snapshot : Snapshot) (index : Nat) : Nat :=
  SavedObject.totalSize (snapshot.objects.take index)

/-- The number of bytes that the objects take. -/
def memorySize (snapshot : Snapshot) : Nat := snapshot.offset snapshot.objects.length

/-- The number of bytes before the base word of an object, which is the one that
its address points to. -/
def basePlace (snapshot : Snapshot) (index : Nat) : Nat :=
  snapshot.offset index
    + 4 * (((snapshot.objects[index]?.map (·.header.wordCount)).getD 1) - 1)

/-- The address that an object is given. -/
def address (snapshot : Snapshot) (index : Nat) : UInt32 :=
  snapshot.oldBase + UInt32.ofNat (snapshot.basePlace index)

/-- The word that a value is written as. -/
def word (snapshot : Snapshot) : Value → UInt32
  | .small n => (Value.small n).toWord
  | .object index => snapshot.address index

/-- The words that a body is written as. -/
def bodyWords (snapshot : Snapshot) : SavedBody → List UInt32
  | .pointers fields => fields.map snapshot.word
  | .words data => data
  | .bytes data => snapshot.order.pack data
  | .method header literals bytecode =>
    (Value.small header :: literals).map snapshot.word ++ snapshot.order.pack bytecode

/-- The header that an object is written with. -/
def recordHeader (snapshot : Snapshot) (object : SavedObject) : RecordHeader :=
  let count := object.body.wordCount + 1
  match object.header with
  | .compact number => .short (object.baseWord 3 count number)
  | .withClass species => .withClass (snapshot.address species) (object.baseWord 1 count 0)
  | .withSize species =>
    .withSize (UInt32.ofNat (4 * count)) (snapshot.address species) (object.baseWord 0 0 0)

/-- The record that an object is written as. -/
def record (snapshot : Snapshot) (object : SavedObject) : ImageRecord :=
  { header := snapshot.recordHeader object
    body := (snapshot.bodyWords object.body).toArray }

/-- The records of all objects. -/
def records (snapshot : Snapshot) : List ImageRecord := snapshot.objects.map snapshot.record

/-- The header of the image. -/
def imageHeader (snapshot : Snapshot) : ImageHeader :=
  { headerSize := snapshot.headerSize
    endOfMemory := UInt32.ofNat snapshot.memorySize
    oldBase := snapshot.oldBase
    specialObjects := snapshot.address snapshot.specials
    lastHash := snapshot.lastHash
    windowSize := snapshot.windowSize
    fullScreen := snapshot.fullScreen
    extraMemory := snapshot.extraMemory }

/-- The image: the header, the padding and the records. -/
def bytes (snapshot : Snapshot) : List UInt8 :=
  snapshot.imageHeader.words.flatMap snapshot.order.bytes ++ snapshot.padding
    ++ (snapshot.records.flatMap ImageRecord.words).flatMap snapshot.order.bytes

/-! ## What can be written -/

/-- The value in a place of the body of an object. -/
def field? (snapshot : Snapshot) (index place : Nat) : Option Value :=
  snapshot.objects[index]?.bind (·.body.values[place]?)

/-- The class that a number stands for, as the special objects say. -/
def compactClass? (snapshot : Snapshot) (number : Nat) : Option Value :=
  match snapshot.field? snapshot.specials Special.compactClasses with
  | some (.object index) => snapshot.field? index (number - 1)
  | _ => none

/-- The class that a header names. -/
def species? (snapshot : Snapshot) : SavedHeader → Option Value
  | .compact number => snapshot.compactClass? number
  | .withClass species => some (.object species)
  | .withSize species => some (.object species)

/-- A value that is small or refers to an object of the snapshot. -/
def Knows (snapshot : Snapshot) : Value → Prop
  | .small _ => True
  | .object index => index < snapshot.objects.length

instance (snapshot : Snapshot) : DecidablePred snapshot.Knows
  | .small _ => isTrue trivial
  | .object _ => inferInstanceAs (Decidable (_ < _))

/-- A header can be written before a body of so many words: the number of its class
has five bits and is not zero, and the number of words fits. -/
def Heads (count : Nat) : SavedHeader → Prop
  | .compact number => 1 ≤ number ∧ number ≤ 31 ∧ count ≤ 62
  | .withClass _ => count ≤ 62
  | .withSize _ => True

instance (count : Nat) : DecidablePred (Heads count)
  | .compact _ => inferInstanceAs (Decidable (_ ∧ _))
  | .withClass _ => inferInstanceAs (Decidable (_ ≤ _))
  | .withSize _ => isTrue trivial

/-- An object can be written: every part fits the bits that it has, and what it
refers to is there. -/
structure Writes (snapshot : Snapshot) (object : SavedObject) : Prop where
  format : object.format < 16
  hash : object.hash < 4096
  header : Heads object.body.wordCount object.header
  species : ∃ species ∈ snapshot.species? object.header, snapshot.Knows species
  body : object.body.Suits object.format
  values : ∀ value ∈ object.body.values, snapshot.Knows value

instance (snapshot : Snapshot) : DecidablePred snapshot.Writes := fun object =>
  decidable_of_iff
    (object.format < 16 ∧ object.hash < 4096 ∧ Heads object.body.wordCount object.header ∧
      (∃ species ∈ snapshot.species? object.header, snapshot.Knows species) ∧
      object.body.Suits object.format ∧ ∀ value ∈ object.body.values, snapshot.Knows value)
    ⟨fun ⟨format, hash, header, species, body, values⟩ =>
        ⟨format, hash, header, species, body, values⟩,
      fun writes => ⟨writes.format, writes.hash, writes.header, writes.species, writes.body,
        writes.values⟩⟩

/-- A snapshot that can be written as an image. -/
structure Sound (snapshot : Snapshot) : Prop where
  aligned : snapshot.oldBase.toNat % 4 = 0
  padded : ImageHeader.prefixSize + snapshot.padding.length
    = max snapshot.headerSize.toNat ImageHeader.prefixSize
  bounded : snapshot.memorySize < 4294967296
  writes : ∀ object ∈ snapshot.objects, snapshot.Writes object
  /-- The special objects name the object with the compact classes. -/
  compactClasses : ∃ index, snapshot.field? snapshot.specials Special.compactClasses
    = some (.object index)
  /-- The special objects name the class of floats. -/
  floatClass : ∃ index, snapshot.field? snapshot.specials Special.floatClass
    = some (.object index)

/-! ## What is loaded -/

/-- The bytes that a format does not leave unused. -/
def used (format : Nat) (data : List UInt8) : Array UInt8 :=
  (data.take (data.length - format % 4)).toArray

/-- Words as they are, but two words of a float as its number. -/
def wordsBody (float : Prop) [Decidable float] : List UInt32 → Body
  | [high, low] =>
    if float then .float (Image.Context.joinWords high low) else .words #[high, low]
  | data => .words data.toArray

/-- The body that an object of a class is loaded with. -/
def loadedBody (snapshot : Snapshot) (species : Value) (object : SavedObject) : Body :=
  match object.body with
  | .pointers fields => .pointers fields.toArray
  | .words data =>
    wordsBody (snapshot.field? snapshot.specials Special.floatClass = some species) data
  | .bytes data => .bytes (used object.format data)
  | .method header literals bytecode =>
    .method (Value.small header :: literals).toArray (used object.format bytecode)

/-- The object that one of a class is loaded as. -/
def loaded (snapshot : Snapshot) (species : Value) (object : SavedObject) : HeapObject :=
  { species
    format := object.format
    hash := object.hash
    body := snapshot.loadedBody species object }

/-! ## Places -/

theorem offset_add_one {index : Nat} {object : SavedObject}
    (found : snapshot.objects[index]? = some object) :
    snapshot.offset (index + 1) = snapshot.offset index + object.size := by
  simp [offset, List.take_add_one, found, SavedObject.totalSize_append_singleton]

theorem offset_le_offset_add_one (index : Nat) :
    snapshot.offset index ≤ snapshot.offset (index + 1) := by
  cases found : snapshot.objects[index]? with
  | none => simp [offset, List.take_add_one, found]
  | some object =>
    rw [offset_add_one found]
    omega

theorem offset_le_offset {first second : Nat} (ordered : first ≤ second) :
    snapshot.offset first ≤ snapshot.offset second := by
  induction ordered with
  | refl => exact Nat.le_refl _
  | step _ ih => exact Nat.le_trans ih (offset_le_offset_add_one _)

theorem offset_mod_four (index : Nat) : snapshot.offset index % 4 = 0 := by
  unfold offset
  induction snapshot.objects.take index with
  | nil => rfl
  | cons object rest ih =>
    rw [SavedObject.totalSize, SavedObject.size]
    omega

/-- The base word of an object lies between where it begins and where it ends. -/
theorem basePlace_bounds {index : Nat} (inside : index < snapshot.objects.length) :
    snapshot.offset index ≤ snapshot.basePlace index ∧
      snapshot.basePlace index < snapshot.offset (index + 1) := by
  have found := List.getElem?_eq_getElem inside
  have positive := snapshot.objects[index].header.wordCount_pos
  rw [offset_add_one found, basePlace, found, SavedObject.size]
  simp only [Option.map_some, Option.getD_some]
  omega

theorem basePlace_lt_memorySize {index : Nat} (inside : index < snapshot.objects.length) :
    snapshot.basePlace index < snapshot.memorySize :=
  Nat.lt_of_lt_of_le (basePlace_bounds inside).2 (offset_le_offset inside)

theorem basePlace_lt_basePlace {first second : Nat} (ordered : first < second)
    (inside : second < snapshot.objects.length) :
    snapshot.basePlace first < snapshot.basePlace second :=
  calc snapshot.basePlace first
    _ < snapshot.offset (first + 1) := (basePlace_bounds (Nat.lt_trans ordered inside)).2
    _ ≤ snapshot.offset second := offset_le_offset ordered
    _ ≤ snapshot.basePlace second := (basePlace_bounds inside).1

/-- Even if the addresses wrap around, no two objects have the same one. -/
theorem address_inj (bounded : snapshot.memorySize < 4294967296) {first second : Nat}
    (firstInside : first < snapshot.objects.length)
    (secondInside : second < snapshot.objects.length)
    (same : snapshot.address first = snapshot.address second) : first = second := by
  have firstBound := basePlace_lt_memorySize firstInside
  have secondBound := basePlace_lt_memorySize secondInside
  have samePlace : snapshot.basePlace first = snapshot.basePlace second := by
    have sameToNat := congrArg UInt32.toNat same
    have baseBound := snapshot.oldBase.toNat_lt
    simp only [address, UInt32.toNat_add, UInt32.toNat_ofNat'] at sameToNat
    omega
  rcases Nat.lt_trichotomy first second with before | equal | after
  · have := basePlace_lt_basePlace before secondInside
    omega
  · exact equal
  · have := basePlace_lt_basePlace after firstInside
    omega

theorem address_mod_four (aligned : snapshot.oldBase.toNat % 4 = 0) (index : Nat) :
    (snapshot.address index).toNat % 4 = 0 := by
  have := snapshot.offset_mod_four index
  simp only [address, basePlace, UInt32.toNat_add, UInt32.toNat_ofNat']
  omega

/-! ## Records -/

@[simp] theorem wordCount_recordHeader (object : SavedObject) :
    (snapshot.recordHeader object).wordCount = object.header.wordCount := by
  unfold recordHeader
  cases object.header <;> rfl

@[simp] theorem length_bodyWords (body : SavedBody) :
    (snapshot.bodyWords body).length = body.wordCount := by
  cases body <;> simp [bodyWords, SavedBody.wordCount, Nat.add_right_comm]

@[simp] theorem size_record (object : SavedObject) :
    (snapshot.record object).size = object.size := by
  simp [record, ImageRecord.size, SavedObject.size]

theorem totalSize_map_record (objects : List SavedObject) :
    Image.totalSize (objects.map snapshot.record) = SavedObject.totalSize objects := by
  induction objects with
  | nil => rfl
  | cons object rest ih => simp [Image.totalSize, SavedObject.totalSize, ih]

theorem totalSize_take_records (index : Nat) :
    Image.totalSize (snapshot.records.take index) = snapshot.offset index := by
  rw [records, ← List.map_take, totalSize_map_record, offset]

theorem totalSize_records : Image.totalSize snapshot.records = snapshot.memorySize := by
  rw [records, totalSize_map_record, memorySize, offset, List.take_length]

/-- The parts of a base word do not overlap. -/
theorem baseWord_parts {object : SavedObject} (format : object.format < 16)
    (hash : object.hash < 4096) {mark count number : Nat} (markBound : mark < 4)
    (countBound : count < 64) (numberBound : number < 32) :
    let base := (object.baseWord mark count number).toNat
    base % 4 = mark ∧ base / 4 % 64 = count ∧ base / 256 % 16 = object.format ∧
      base / 4096 % 32 = number ∧ base / 131072 % 4096 = object.hash := by
  simp only [SavedObject.baseWord, UInt32.toNat_ofNat']
  omega

variable {object : SavedObject}

theorem base_recordHeader (writes : snapshot.Writes object) :
    ∃ mark count number, mark < 4 ∧ count < 64 ∧ number < 32 ∧
      (snapshot.recordHeader object).base = object.baseWord mark count number := by
  have heads := writes.header
  unfold recordHeader
  cases kind : object.header with
  | compact number =>
    rw [kind] at heads
    exact ⟨3, _, number, by decide, Nat.succ_lt_succ (Nat.lt_succ_of_le heads.2.2),
      Nat.lt_succ_of_le heads.2.1, rfl⟩
  | withClass species =>
    rw [kind] at heads
    exact ⟨1, _, 0, by decide, Nat.succ_lt_succ (Nat.lt_succ_of_le heads), by decide, rfl⟩
  | withSize species => exact ⟨0, 0, 0, by decide, by decide, by decide, rfl⟩

theorem format_recordHeader (writes : snapshot.Writes object) :
    (snapshot.recordHeader object).format = object.format := by
  obtain ⟨mark, count, number, markBound, countBound, numberBound, base⟩ := base_recordHeader writes
  rw [RecordHeader.format, base]
  exact (baseWord_parts writes.format writes.hash markBound countBound numberBound).2.2.1

theorem hash_recordHeader (writes : snapshot.Writes object) :
    (snapshot.recordHeader object).hash = object.hash := by
  obtain ⟨mark, count, number, markBound, countBound, numberBound, base⟩ := base_recordHeader writes
  rw [RecordHeader.hash, base]
  exact (baseWord_parts writes.format writes.hash markBound countBound numberBound).2.2.2.2

theorem size_le_memorySize (member : object ∈ snapshot.objects) :
    object.size ≤ snapshot.memorySize := by
  obtain ⟨index, inside, rfl⟩ := List.getElem_of_mem member
  have ends : snapshot.offset (index + 1) ≤ snapshot.memorySize := offset_le_offset inside
  rw [offset_add_one (List.getElem?_eq_getElem inside)] at ends
  omega

/-- What is written as a record says the truth about itself. -/
theorem record_sound (sound : snapshot.Sound) (member : object ∈ snapshot.objects) :
    (snapshot.record object).Sound := by
  have writes := sound.writes object member
  have heads := writes.header
  have size := size_le_memorySize member
  have bounded := sound.bounded
  have counted : (snapshot.record object).body.size = object.body.wordCount := by
    simp [record]
  constructor
  · change (snapshot.recordHeader object).Tagged
    unfold recordHeader
    cases kind : object.header with
    | compact number =>
      rw [kind] at heads
      exact (baseWord_parts writes.format writes.hash (by decide)
        (Nat.succ_lt_succ (Nat.lt_succ_of_le heads.2.2)) (Nat.lt_succ_of_le heads.2.1)).1
    | withClass species => exact address_mod_four sound.aligned species
    | withSize species =>
      simp only [RecordHeader.Tagged, UInt32.toNat_ofNat']
      omega
  · rw [counted]
    change (snapshot.recordHeader object).bodyCount = _
    unfold recordHeader
    cases kind : object.header with
    | compact number =>
      rw [kind] at heads
      have parts := baseWord_parts writes.format writes.hash (show 3 < 4 by decide)
        (Nat.succ_lt_succ (Nat.lt_succ_of_le heads.2.2)) (Nat.lt_succ_of_le heads.2.1)
      simp only [RecordHeader.bodyCount, parts.2.1]
      omega
    | withClass species =>
      rw [kind] at heads
      have parts := baseWord_parts writes.format writes.hash (show 1 < 4 by decide)
        (Nat.succ_lt_succ (Nat.lt_succ_of_le heads)) (show 0 < 32 by decide)
      simp only [RecordHeader.bodyCount, parts.2.1]
      omega
    | withSize species =>
      simp only [SavedObject.size, kind, SavedHeader.wordCount] at size
      simp only [RecordHeader.bodyCount, UInt32.toNat_ofNat']
      omega

end Snapshot

end Smalltalk
