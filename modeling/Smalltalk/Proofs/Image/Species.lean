import Smalltalk.Proofs.Image.Loaded

namespace Smalltalk

/-! The class of a loaded object is what a word of its record stands for, found in the
header or among the compact classes. Such a word is read as the words of a body are: an
even one has to be the address of a record, and an odd one is a small integer. -/

/-! ## Addresses -/

namespace Image

variable {space : RecordSpace} {read : List ImageRecord} {oldBase : UInt32}

/-- Where the base word of a record stands. -/
def basePlace (entry : LoadedRecord) : Nat :=
  entry.offset + 4 * (entry.record.header.wordCount - 1)

theorem covers_basePlace (entry : LoadedRecord) : entry.Covers (basePlace entry) := by
  have := entry.record.header.wordCount_pos
  simp only [LoadedRecord.Covers, basePlace, ImageRecord.size]
  omega

/-- Records that fill the space have different addresses. -/
theorem eq_of_addressOf_eq (tiled : space.Tiled 0 read) (bounded : space.size < 4294967296)
    {one other : LoadedRecord} (isOne : one ∈ entriesFrom 0 0 read)
    (isOther : other ∈ entriesFrom 0 0 read)
    (same : addressOf oldBase one = addressOf oldBase other) : one = other := by
  have oneInside := before_of_covers tiled isOne (covers_basePlace one)
  have otherInside := before_of_covers tiled isOther (covers_basePlace other)
  have samePlace : basePlace one = basePlace other := by
    have words : UInt32.ofNat (basePlace one) = UInt32.ofNat (basePlace other) := by
      simpa [addressOf, ImageRecord.address, basePlace] using same
    have numbers := congrArg UInt32.toNat words
    rwa [UInt32.toNat_ofNat_of_lt' (by simp [UInt32.size]; omega),
      UInt32.toNat_ofNat_of_lt' (by simp [UInt32.size]; omega)] at numbers
  exact (existsUnique_covers tiled (Nat.zero_le _) oneInside).unique
    ⟨isOne, covers_basePlace one⟩ ⟨isOther, samePlace ▸ covers_basePlace other⟩

/-- The compact classes of an image are the words of one record. -/
theorem NamesCompactClasses.unique {special : UInt32} {first second : Array UInt32}
    (tiled : space.Tiled 0 read) (bounded : space.size < 4294967296)
    (names : NamesCompactClasses oldBase special (entriesFrom 0 0 read) first)
    (again : NamesCompactClasses oldBase special (entriesFrom 0 0 read) second) :
    first = second := by
  rcases names with ⟨specials, isSpecials, compact, isCompact, address, field, rfl⟩
  rcases again with ⟨others, isOthers, another, isAnother, otherAddress, otherField, rfl⟩
  obtain rfl := eq_of_addressOf_eq tiled bounded isSpecials isOthers
    (address.trans otherAddress.symm)
  rw [field] at otherField
  rw [eq_of_addressOf_eq tiled bounded isCompact isAnother (Option.some.inj otherField)]

end Image

/-! ## Class headers -/

namespace RecordSpace

variable {space : RecordSpace} {offset : Nat}

/-- What a header that names a class without a size names is a multiple of four: its low
bits hold the kind of the header, which is taken off. -/
theorem mod_four_of_readHeader {species base : UInt32}
    (headed : space.readHeader offset = .ok (.withClass species base)) :
    species.toNat % 4 = 0 := by
  rw [readHeader] at headed
  rcases bind_eq_ok_iff.mp headed with ⟨first, -, headed⟩
  split at headed
  · rcases bind_eq_ok_iff.mp headed with ⟨named, -, headed⟩
    rcases bind_eq_ok_iff.mp headed with ⟨word, -, headed⟩
    cases eq_of_checkHeader headed
  · rename_i kind
    rcases bind_eq_ok_iff.mp headed with ⟨word, -, headed⟩
    cases eq_of_checkHeader headed
    have positive : (1 : UInt32) ≤ first := by
      rw [UInt32.le_iff_toNat_le]
      simp only [UInt32.reduceToNat]
      omega
    rw [UInt32.toNat_sub_of_le _ _ positive]
    simp only [UInt32.reduceToNat]
    omega
  · cases headed
  · cases eq_of_checkHeader headed

/-- Every record that was read has a header that was read. -/
theorem Tiled.readHeader {records : List ImageRecord} (tiled : space.Tiled offset records)
    {record : ImageRecord} (member : record ∈ records) :
    ∃ place, space.readHeader place = .ok record.header := by
  induction tiled with
  | done => cases member
  | @next offset first rest read behind ih =>
    rcases List.mem_cons.mp member with rfl | later
    · rw [readRecord] at read
      rcases bind_eq_ok_iff.mp read with ⟨header, headed, read⟩
      dsimp only at read
      split at read
      · cases read
      · rcases bind_eq_ok_iff.mp read with ⟨body, -, made⟩
        cases made
        exact ⟨offset, headed⟩
    · exact ih later

end RecordSpace

/-! ## Classes -/

namespace Image

variable {image : Image} {source : ByteSource} {read : List ImageRecord} {context : Context}

/-- The class of a record is what the word that names it stands for. -/
theorem Context.species_of_decode {entry : LoadedRecord} {species : Value} {body : Body}
    (decodes : context.decode entry = .ok (species, body)) :
    ∃ word, entry.record.header.speciesWord? context.compactClasses = some word ∧
      context.resolve (entry.record.address context.oldBase entry.offset) word = .ok species := by
  rw [decode] at decodes
  split at decodes
  · cases decodes
  · rename_i word named
    rcases bind_eq_ok_iff.mp decodes with ⟨found, resolved, decodes⟩
    rcases bind_eq_ok_iff.mp decodes with ⟨filled, -, made⟩
    cases made
    exact ⟨word, named, resolved⟩

namespace Holds

theorem species_stands (holds : image.Holds source read context) {index : Nat}
    {record : ImageRecord} (listed : read[index]? = some record) :
    ∃ object word, image.heap.cell? index = some object ∧
      record.header.speciesWord? context.compactClasses = some word ∧
      Stands image.header.oldBase (entriesFrom 0 0 read) word object.species := by
  have member := (@mem_entriesFrom 0 0 read _).mpr ⟨index, record, listed, rfl⟩
  rcases holds.cells _ member with ⟨species, body, decodes, found⟩
  change image.heap.cell? (0 + index) = _ at found
  rw [Nat.zero_add] at found
  have knows : context.directory
      = Image.directory context.oldBase (entriesFrom 0 0 read).toArray := by
    rw [holds.directory, holds.oldBase]
  rcases Context.species_of_decode decodes with ⟨word, named, resolved⟩
  rw [← holds.oldBase]
  exact ⟨_, word, found, named, Context.stands_of_resolve knows resolved⟩

/-- All classes are loaded objects exactly when all words that name a class are even. -/
theorem species_isObject_iff (holds : image.Holds source read context) :
    (∀ index object, image.heap.cell? index = some object →
      ∃ place < read.length, object.species = .object place) ↔
    ∀ record ∈ read, ∀ word ∈ record.header.speciesWord? context.compactClasses,
      word.toNat % 2 = 0 := by
  constructor
  · intro classes record member word named
    rcases List.getElem?_of_mem member with ⟨index, listed⟩
    rcases holds.species_stands listed with ⟨object, found, here, isNamed, stands⟩
    rw [Option.mem_def.mp named] at isNamed
    cases isNamed
    rcases classes index object here with ⟨place, -, isObject⟩
    by_contra odd
    rw [Stands, if_pos (by omega), isObject, Value.ofWord] at stands
    split at stands
    · omega
    · split at stands <;> cases stands
  · intro even index object found
    rcases Nat.lt_or_ge index read.length with inside | beyond
    · have listed := List.getElem?_eq_getElem inside
      rcases holds.species_stands listed with ⟨same, word, here, named, stands⟩
      rw [here] at found
      cases found
      have isEven := even _ (List.mem_of_getElem? listed) word named
      rw [Stands, if_neg (by omega)] at stands
      rcases stands with ⟨entry, member, -, isValue⟩
      rcases mem_entriesFrom.mp member with ⟨place, record, known, rfl⟩
      exact ⟨0 + place, by simpa using (List.getElem?_eq_some_iff.mp known).1, isValue.symm⟩
    · rw [holds.only index beyond] at found
      cases found

end Holds

/-- A record whose class is named by no word, or by an even one that is the address of no
record, cannot be loaded. -/
theorem load_error_of_unknown_species {order : ByteOrder} {header : ImageHeader}
    {compact : Array UInt32} {entry : LoadedRecord}
    (ordered : ImageHeader.readOrder source = .ok order)
    (headed : ImageHeader.read source order = .ok header)
    (tiled : (records source order header).Tiled 0 read)
    (names : NamesCompactClasses header.oldBase header.specialObjects (entriesFrom 0 0 read)
      compact)
    (member : entry ∈ entriesFrom 0 0 read)
    (unknown : ∀ word ∈ entry.record.header.speciesWord? compact, word.toNat % 2 = 0 ∧
      ∀ other ∈ entriesFrom 0 0 read, addressOf header.oldBase other ≠ word)
    (config : Config) : ∃ error, load source config = .error error := by
  cases loads : load source config with
  | error error => exact ⟨error, rfl⟩
  | ok image =>
    exfalso
    rcases holds_with_compact_of_load loads with ⟨same, context, holds, sameNames⟩
    obtain ⟨rfl, rfl, rfl⟩ := holds.describes ordered headed tiled
    obtain rfl := names.unique tiled image.header.endOfMemory.toNat_lt sameNames
    rcases mem_entriesFrom.mp member with ⟨index, record, listed, rfl⟩
    rcases holds.species_stands listed with ⟨object, word, -, named, stands⟩
    rcases unknown word named with ⟨even, dangles⟩
    rw [Stands, if_neg (by omega)] at stands
    rcases stands with ⟨other, isOther, address, -⟩
    exact dangles other isOther address

/-- The classes of loaded objects. In every image that is loaded, the class of each object is
what the word that names it stands for: an even word is the address of a record, and the class
is the object of that record; an odd word is taken for a small integer, which is then the
class. So the classes are loaded objects exactly when no word that names one is odd, and the
word of a header that holds a class and no size never is. An image with a record whose
class is named by an even word that is the address of no record, or by a number without an entry
among the compact classes, is refused. -/
theorem classes_of_load (source : ByteSource) (config : Config) :
    (∀ image, load source config = .ok image → ∃ read context,
      image.Holds source read context ∧
      NamesCompactClasses image.header.oldBase image.header.specialObjects (entriesFrom 0 0 read)
        context.compactClasses ∧
      (∀ index record, read[index]? = some record → ∃ object word,
        image.heap.cell? index = some object ∧
        record.header.speciesWord? context.compactClasses = some word ∧
        Stands image.header.oldBase (entriesFrom 0 0 read) word object.species) ∧
      ((∀ index object, image.heap.cell? index = some object →
          ∃ place < read.length, object.species = .object place) ↔
        ∀ record ∈ read, ∀ word ∈ record.header.speciesWord? context.compactClasses,
          word.toNat % 2 = 0) ∧
      ∀ record ∈ read, ∀ species base, record.header = .withClass species base →
        species.toNat % 2 = 0) ∧
    ∀ order header read compact, ImageHeader.readOrder source = .ok order →
      ImageHeader.read source order = .ok header → (records source order header).Tiled 0 read →
      NamesCompactClasses header.oldBase header.specialObjects (entriesFrom 0 0 read) compact →
      ∀ entry ∈ entriesFrom 0 0 read,
        (∀ word ∈ entry.record.header.speciesWord? compact, word.toNat % 2 = 0 ∧
          ∀ other ∈ entriesFrom 0 0 read, addressOf header.oldBase other ≠ word) →
        ∃ error, load source config = .error error := by
  refine ⟨?_, ?_⟩
  · intro image loads
    rcases holds_with_compact_of_load loads with ⟨read, context, holds, names⟩
    refine ⟨read, context, holds, names, fun index record listed => holds.species_stands listed,
      holds.species_isObject_iff, ?_⟩
    intro record member species base isHeader
    rcases holds.tiled.readHeader member with ⟨place, headed⟩
    rw [isHeader] at headed
    have := RecordSpace.mod_four_of_readHeader headed
    omega
  · intro order header read compact ordered headed tiled names entry member unknown
    exact load_error_of_unknown_species ordered headed tiled names member unknown config

end Image

namespace Snapshot

/-- The sample, with a small integer as its first compact class. -/
def misclassed : Snapshot :=
  { sample with
    objects := sample.objects.set 3
      { header := .withClass 1, format := 2, hash := 4, body := .pointers [.ofInt 21] } }

/-- An image whose only fault is an odd word among the compact classes is loaded, and an
object has a small integer for its class. -/
theorem classes_of_load_misclassed :
    ∃ image, Image.load (.ofBytes misclassed.bytes.toArray) .compact = .ok image ∧
      (∃ object, image.heap.cell? 5 = some object ∧ object.species = .ofInt 21) ∧
      ∃ read context, image.Holds (.ofBytes misclassed.bytes.toArray) read context ∧
        ∃ record ∈ read, ∃ word ∈ record.header.speciesWord? context.compactClasses,
          word.toNat % 2 ≠ 0 := by
  have sound : misclassed.Sound :=
    { aligned := by decide
      padded := by decide
      bounded := by decide
      writes := by decide +kernel
      compactClasses := ⟨3, by decide⟩
      floatClass := ⟨2, by decide⟩ }
  have room : misclassed.objects.length ≤ (Heap.ofConfig .compact).reach := by decide
  obtain ⟨image, loads, -, -, -, -, cells⟩ := load_bytes sound room
  obtain ⟨species, named, found⟩ := cells 5 _ rfl
  cases named
  rcases (Image.classes_of_load _ _).1 image loads with
    ⟨read, context, holds, -, -, allObjects, -⟩
  refine ⟨image, loads, ⟨_, found, rfl⟩, read, context, holds, ?_⟩
  by_contra none
  push Not at none
  rcases allObjects.mpr none 5 _ found with ⟨place, -, isObject⟩
  cases isObject

end Snapshot

end Smalltalk
