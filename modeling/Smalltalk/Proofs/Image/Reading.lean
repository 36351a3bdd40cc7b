import Smalltalk.Image.Loader
import Smalltalk.Proofs.Image.Words

namespace Smalltalk

/-! The first pass reads back what stands in an image: the order of the bytes, the
header, and each record from the words that it is written as. Whoever follows the
records from the first one on comes to every one of them and registers an object
for each, in order. -/

/-! ## The header -/

namespace ImageHeader

variable {source : ByteSource} {order : ByteOrder}

/-- The words at the start of an image, the mark first. -/
def words (header : ImageHeader) : List UInt32 :=
  [mark, header.headerSize, header.endOfMemory, header.oldBase, header.specialObjects,
    header.lastHash, header.windowSize, header.fullScreen, header.extraMemory]

/-- The mark is no palindrome: read in the wrong order it is not the mark. -/
theorem readOrder_of_mark (marked : source.word? order 0 = some mark) :
    readOrder source = .ok order := by
  cases order with
  | big => simp [readOrder, marked]
  | little =>
    obtain ⟨a, first, b, second, c, third, d, fourth, reads⟩ :
        ∃ a, source.bytes[0]? = some a ∧ ∃ b, source.bytes[0 + 1]? = some b ∧
          ∃ c, source.bytes[0 + 2]? = some c ∧ ∃ d, source.bytes[0 + 3]? = some d ∧
            ByteOrder.little.word a b c d = mark := by
      simpa [ByteSource.word?, Option.bind_eq_some_iff] using marked
    have inOrder : [a, b, c, d] = ByteOrder.little.bytes mark := by
      rw [← reads, ByteOrder.bytes_word]
    have reversed : source.word? .big 0 = some (ByteOrder.big.word a b c d) := by
      simp only [ByteSource.word?, first, second, third, fourth, bind, Option.bind, pure]
    have unlike : ByteOrder.big.word a b c d ≠ mark := by
      rw [show ByteOrder.little.bytes mark = [102, 25, 0, 0] by decide] at inOrder
      simp only [List.cons.injEq, and_true] at inOrder
      obtain ⟨rfl, rfl, rfl, rfl⟩ := inOrder
      decide
    simp [readOrder, reversed, unlike, marked]

theorem read_of_holds {header : ImageHeader} (holds : source.Holds order 0 header.words)
    (reaches : header.firstObject ≤ source.bytes.size) :
    read source order = .ok header := by
  have readWord_eq (index : Nat) (word : UInt32) (found : header.words[index + 1]? = some word) :
      readWord source order index = .ok word := by
    have place := holds.wordAt (index + 1) found
    rw [Nat.zero_add] at place
    rw [readWord, place]
    rfl
  rw [read, readWord_eq 0 _ rfl, readWord_eq 1 _ rfl, readWord_eq 2 _ rfl, readWord_eq 3 _ rfl,
    readWord_eq 4 _ rfl, readWord_eq 5 _ rfl, readWord_eq 6 _ rfl, readWord_eq 7 _ rfl]
  have skips : source.skipTo header.firstObject = .ok () := by
    rw [ByteSource.skipTo, if_pos reaches]
  simp only [bind, Except.bind, skips]
  rfl

end ImageHeader

/-! ## A record -/

namespace RecordHeader

/-- The words of a header as they stand in an image. The low two bits of the
first one tell the kind of the header. -/
def words : RecordHeader → List UInt32
  | short base => [base]
  | withClass species base => [species + 1, base]
  | withSize size species base => [size, species, base]

@[simp] theorem length_words (header : RecordHeader) : header.words.length = header.wordCount := by
  cases header <;> rfl

/-- The first word shows what kind of header it begins. -/
def Tagged : RecordHeader → Prop
  | short base => base.toNat % 4 = 3
  | withClass species _ => species.toNat % 4 = 0
  | withSize size _ _ => size.toNat % 4 = 0

end RecordHeader

namespace ImageRecord

/-- The words of a record as they stand in an image. -/
def words (record : ImageRecord) : List UInt32 := record.header.words ++ record.body.toList

theorem four_mul_length_words (record : ImageRecord) : 4 * record.words.length = record.size := by
  simp [words, size]

/-- A record whose header tells the truth about itself and its body. -/
structure Sound (record : ImageRecord) : Prop where
  tagged : record.header.Tagged
  counted : record.header.bodyCount = record.body.size

end ImageRecord

namespace RecordSpace

variable {space : RecordSpace} {offset : Nat}

/-- The words stand in the object memory from an offset on. -/
def Holds (space : RecordSpace) (offset : Nat) (words : List UInt32) : Prop :=
  space.source.Holds space.order (space.start + offset) words

theorem Holds.wordAt {words : List UInt32} (holds : space.Holds offset words) (index : Nat)
    {word : UInt32} (found : words[index]? = some word) :
    space.wordAt (offset + 4 * index) = .ok word := by
  have read := ByteSource.Holds.wordAt holds index found
  rw [Nat.add_assoc] at read
  rw [RecordSpace.wordAt, read]
  rfl

theorem Holds.left {before after : List UInt32} (holds : space.Holds offset (before ++ after)) :
    space.Holds offset before :=
  @ByteSource.Holds.part _ _ _ before [] after holds

theorem Holds.right {before after : List UInt32} (holds : space.Holds offset (before ++ after)) :
    space.Holds (offset + 4 * before.length) after := by
  rw [← List.append_nil (before ++ after)] at holds
  have part := ByteSource.Holds.part holds
  rwa [Nat.add_assoc] at part

theorem readHeader_of_holds {header : RecordHeader} (tagged : header.Tagged)
    (holds : space.Holds offset header.words)
    (inside : offset + 4 * header.wordCount ≤ space.size) :
    space.readHeader offset = .ok header := by
  have checks : space.checkHeader offset header = .ok header := if_pos inside
  cases header with
  | short base =>
    have first : space.wordAt offset = .ok base := holds.wordAt 0 rfl
    have kind : base.toNat % 4 = 3 := tagged
    rw [readHeader, first]
    simpa only [bind, Except.bind, kind] using checks
  | withClass species base =>
    have first : space.wordAt offset = .ok (species + 1) := holds.wordAt 0 rfl
    have second : space.wordAt (offset + 4) = .ok base := holds.wordAt 1 rfl
    have kind : (species + 1).toNat % 4 = 1 := by
      have aligned : species.toNat % 4 = 0 := tagged
      have bounded := species.toNat_lt
      rw [UInt32.toNat_add, show (1 : UInt32).toNat = 1 from rfl]
      omega
    have species_eq : species + 1 - 1 = species := by
      rw [UInt32.add_sub_cancel]
    rw [readHeader, first]
    simpa only [bind, Except.bind, kind, second, species_eq] using checks
  | withSize size species base =>
    have first : space.wordAt offset = .ok size := holds.wordAt 0 rfl
    have second : space.wordAt (offset + 4) = .ok species := holds.wordAt 1 rfl
    have third : space.wordAt (offset + 8) = .ok base := holds.wordAt 2 rfl
    have kind : size.toNat % 4 = 0 := tagged
    rw [readHeader, first]
    simpa only [bind, Except.bind, kind, second, third] using checks

theorem readRecord_of_holds {record : ImageRecord} (sound : record.Sound)
    (holds : space.Holds offset record.words) (inside : offset + record.size ≤ space.size) :
    space.readRecord offset = .ok record := by
  unfold ImageRecord.size at inside
  have header := readHeader_of_holds sound.tagged holds.left (by omega)
  have body := ByteSource.Holds.wordsAt holds.right
  rw [RecordHeader.length_words, Array.length_toList, Array.toArray_toList] at body
  have enough : ¬ space.size
      < offset + 4 * record.header.wordCount + 4 * record.header.bodyCount := by
    rw [sound.counted]
    omega
  simp only [readRecord, header, bind, Except.bind, if_neg enough]
  rw [sound.counted, body]
  rfl

end RecordSpace

/-! ## All records -/

namespace Heap

/-- The greatest capacity that the table comes to when it only ever grows by one
request at a time. -/
def reach (heap : Heap) : Nat :=
  heap.capacity + (heap.limit - heap.capacity) / heap.growth * heap.growth

/-- A heap that holds nothing but the given objects, each in the cell with its
number. -/
structure Packed (heap : Heap) (objects : List HeapObject) : Prop where
  cells : heap.cells = (objects.map some).toArray
  table : heap.table = Array.range objects.length
  free : heap.free = []

theorem packed_ofConfig (config : Config) (seed : UInt32) :
    ((ofConfig config).seedHash seed).Packed [] :=
  ⟨rfl, rfl, rfl⟩

theorem Packed.size_eq {heap : Heap} {objects : List HeapObject} (packed : heap.Packed objects) :
    heap.size = objects.length := by
  simp [Heap.size, packed.table]

theorem Packed.cell?_eq {heap : Heap} {objects : List HeapObject} (packed : heap.Packed objects)
    (slot : Nat) : heap.cell? slot = objects[slot]? := by
  rw [cell?, packed.cells, List.getElem?_toArray, List.getElem?_map]
  cases objects[slot]? <;> rfl

theorem grow_of_lt_reach {heap : Heap} (room : heap.capacity < heap.reach) :
    ∃ grown, heap.grow heap.growth = .ok grown ∧ grown.reach = heap.reach ∧
      grown.cells = heap.cells ∧ grown.table = heap.table ∧ grown.free = heap.free := by
  have positive : 0 < heap.growth := by
    rcases Nat.eq_zero_or_pos heap.growth with none | some
    · simp [reach, none] at room
    · exact some
  have fits : heap.growth ≤ heap.limit - heap.capacity := by
    rcases Nat.lt_or_ge (heap.limit - heap.capacity) heap.growth with short | enough
    · simp [reach, Nat.div_eq_of_lt short] at room
    · exact enough
  have below : ¬ heap.limit < heap.capacity + heap.growth := by omega
  refine ⟨_, if_neg below, ?_, rfl, rfl, rfl⟩
  have steps : (heap.limit - heap.capacity) / heap.growth
      = (heap.limit - (heap.capacity + heap.growth)) / heap.growth + 1 := by
    rw [Nat.div_eq_sub_div positive fits, Nat.sub_sub]
  simp only [reach, steps, Nat.add_mul, Nat.one_mul]
  omega

theorem Packed.place {heap : Heap} {objects : List HeapObject} (packed : heap.Packed objects)
    (object : HeapObject) :
    ∃ next, heap.advanceHash.place object = (.object objects.length, next) ∧
      next.Packed (objects ++ [object]) ∧ next.reach = heap.reach := by
  have noFree : heap.advanceHash.free = [] := packed.free
  have cells : heap.advanceHash.cells = (objects.map some).toArray := packed.cells
  have table : heap.advanceHash.table = Array.range objects.length := packed.table
  rw [Heap.place, noFree]
  refine ⟨_, Prod.ext (by simp [cells]) rfl, ⟨?_, ?_, rfl⟩, rfl⟩
  · simp [cells]
  · simp [cells, table, Array.range_succ]

theorem Packed.registerLoaded {heap : Heap} {objects : List HeapObject}
    (packed : heap.Packed objects) (room : objects.length < heap.reach) (object : HeapObject) :
    ∃ next, heap.registerLoaded object = .ok (.object objects.length, next) ∧
      next.Packed (objects ++ [object]) ∧ next.reach = heap.reach := by
  by_cases full : heap.capacity ≤ heap.size
  · obtain ⟨grown, grows, sameReach, cells, table, free⟩ :=
      grow_of_lt_reach (Nat.lt_of_le_of_lt (packed.size_eq ▸ full) room)
    have grownPacked : grown.Packed objects :=
      ⟨cells.trans packed.cells, table.trans packed.table, free.trans packed.free⟩
    obtain ⟨next, places, nextPacked, nextReach⟩ := grownPacked.place object
    refine ⟨next, ?_, nextPacked, nextReach.trans sameReach⟩
    rw [Heap.registerLoaded, if_pos full, grows, ← places]
    rfl
  · obtain ⟨next, places, nextPacked, nextReach⟩ := packed.place object
    refine ⟨next, ?_, nextPacked, nextReach⟩
    rw [Heap.registerLoaded, if_neg full, ← places]
    rfl

end Heap

namespace Image

/-- What the first pass finds out about records that follow each other: where
each one stands and which object is registered for it. -/
def entriesFrom (offset slot : Nat) : List ImageRecord → List LoadedRecord
  | [] => []
  | record :: rest =>
    { record, offset, value := .object slot } :: entriesFrom (offset + record.size) (slot + 1) rest

/-- The number of bytes that records take. -/
def totalSize : List ImageRecord → Nat
  | [] => 0
  | record :: rest => record.size + totalSize rest

theorem registerFrom_of_holds {space : RecordSpace} {records : List ImageRecord}
    (sound : ∀ record ∈ records, record.Sound) {offset : Nat}
    (holds : space.Holds offset (records.flatMap ImageRecord.words))
    (ends : offset + totalSize records = space.size) {heap : Heap} {objects : List HeapObject}
    (packed : heap.Packed objects) (room : objects.length + records.length ≤ heap.reach)
    (loaded : Array LoadedRecord) :
    ∃ filled, registerFrom space offset heap loaded
        = .ok (loaded ++ (entriesFrom offset objects.length records).toArray, filled) ∧
      filled.Packed (objects ++ records.map placeholder) := by
  induction records generalizing offset heap objects loaded with
  | nil =>
    have done : space.size ≤ offset := by simp [totalSize] at ends; omega
    refine ⟨heap, ?_, by simpa using packed⟩
    rw [registerFrom, if_pos done]
    simp [entriesFrom]
  | cons record rest ih =>
    rw [totalSize] at ends
    have recordSound := sound record (List.mem_cons_self ..)
    have more : ¬ space.size ≤ offset := by
      have := record.size_pos
      omega
    rw [List.flatMap_cons] at holds
    have reads := RecordSpace.readRecord_of_holds recordSound holds.left (by omega)
    rw [List.length_cons] at room
    obtain ⟨next, registers, nextPacked, sameReach⟩ :=
      packed.registerLoaded (by omega) (placeholder record)
    have restHolds := holds.right
    rw [record.four_mul_length_words] at restHolds
    obtain ⟨filled, follows, filledPacked⟩ :=
      ih (fun other member => sound other (List.mem_cons_of_mem _ member)) restHolds (by omega)
        nextPacked (by simp only [List.length_append, List.length_singleton]; omega)
        (loaded.push { record, offset, value := .object objects.length })
    refine ⟨filled, ?_, by simpa using filledPacked⟩
    rw [registerFrom, if_neg more, reads]
    simp only [registers, follows, List.length_append, List.length_singleton, entriesFrom]
    simp

end Image

end Smalltalk
