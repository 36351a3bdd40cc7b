import Smalltalk.Proofs.Image.Decoding

namespace Smalltalk

/-! An image that was written from a snapshot is loaded as that snapshot. Both passes
follow the objects in order: the first one has registered an empty object for each,
the second one gives each its class and its body and leaves the others alone. -/

namespace Image

theorem map_value_entriesFrom (records : List ImageRecord) (offset slot : Nat) :
    (entriesFrom offset slot records).map (·.value)
      = (List.range' slot records.length).map Value.object := by
  induction records generalizing offset slot with
  | nil => rfl
  | cons record rest ih => simp [entriesFrom, ih, List.range'_succ]

namespace Context

/-- Give an object a class and a body. -/
def complete (species : Value) (body : Body) (object : HeapObject) : HeapObject :=
  { object with species, body }

theorem install_of_decode {context : Context} {entry : LoadedRecord} {species : Value}
    {body : Body} (decodes : context.decode entry = .ok (species, body)) (heap : Heap) :
    context.install heap entry = .ok (heap.update entry.value (complete species body)) := by
  rw [install, decodes]
  rfl

theorem table_update (heap : Heap) (value : Value) (change : HeapObject → HeapObject) :
    (heap.update value change).table = heap.table := by
  cases value <;> rfl

/-- Entries for different objects are installed independently of each other. -/
theorem foldlM_install {context : Context} {entries : List LoadedRecord}
    (decodes : ∀ entry ∈ entries, ∃ found, context.decode entry = .ok found)
    (apart : (entries.map (·.value)).Nodup) (heap : Heap) :
    ∃ filled, entries.foldlM context.install heap = .ok filled ∧ filled.table = heap.table ∧
      (∀ value, value ∉ entries.map (·.value) → filled.get? value = heap.get? value) ∧
      ∀ entry ∈ entries, ∀ species body, context.decode entry = .ok (species, body) →
        filled.get? entry.value = (heap.get? entry.value).map (complete species body) := by
  induction entries generalizing heap with
  | nil => exact ⟨heap, rfl, rfl, fun _ _ => rfl, fun _ member => absurd member List.not_mem_nil⟩
  | cons entry rest ih =>
    obtain ⟨fresh, restApart⟩ := List.nodup_cons.mp apart
    obtain ⟨⟨species, body⟩, decoded⟩ := decodes entry (List.mem_cons_self ..)
    obtain ⟨filled, installs, sameTable, elsewhere, installed⟩ :=
      ih (fun other member => decodes other (List.mem_cons_of_mem _ member)) restApart
        (heap.update entry.value (complete species body))
    refine ⟨filled, ?_, sameTable.trans (table_update _ _ _), ?_, ?_⟩
    · rw [List.foldlM_cons, install_of_decode decoded]
      exact installs
    · intro value unlisted
      rw [List.map_cons, List.mem_cons, not_or] at unlisted
      rw [elsewhere value unlisted.2, Heap.get?_update_other _ (Ne.symm unlisted.1)]
    · intro other member otherSpecies otherBody otherDecoded
      rcases List.mem_cons.mp member with rfl | later
      · rw [decoded] at otherDecoded
        cases otherDecoded
        rw [elsewhere _ fresh, Heap.get?_update_same]
      · have different : entry.value ≠ other.value := fun same =>
          fresh (List.mem_map.mpr ⟨other, later, same.symm⟩)
        rw [installed other later _ _ otherDecoded, Heap.get?_update_other _ different]

end Context

/-- An image is loaded when both passes succeed and the special objects are there. -/
theorem load_of_passes {source : ByteSource} {config : Config} {order : ByteOrder}
    {header : ImageHeader} {loaded : Array LoadedRecord} {registered filled : Heap}
    {specials compact : LoadedRecord}
    (ordered : ImageHeader.readOrder source = .ok order)
    (headed : ImageHeader.read source order = .ok header)
    (registers : registerFrom
      { source, order, start := header.firstObject, size := header.endOfMemory.toNat } 0
      ((Heap.ofConfig config).seedHash header.lastHash) #[] = .ok (loaded, registered))
    (toSpecials : essential (directory header.oldBase loaded) (some header.specialObjects)
      .specialObjects = .ok specials)
    (toCompact : essential (directory header.oldBase loaded)
      specials.record.body[Special.compactClasses]? .compactClasses = .ok compact)
    (installs : loaded.foldlM
      (Context.install
        { order
          oldBase := header.oldBase
          directory := directory header.oldBase loaded
          compactClasses := compact.record.body
          floatClass := specials.record.body[Special.floatClass]? })
      registered = .ok filled) :
    load source config
      = .ok { header, order, heap := filled.tenure, specialObjects := specials.value } := by
  simp only [load, ordered, headed, registers, toSpecials, toCompact, bind, Except.bind]
  rw [installs]
  rfl

end Image

namespace Snapshot

variable {snapshot : Snapshot}

/-- The bytes of an image, which end with it. -/
def source (snapshot : Snapshot) : ByteSource := .ofBytes snapshot.bytes.toArray

theorem firstObject_imageHeader (sound : snapshot.Sound) :
    snapshot.imageHeader.firstObject = ImageHeader.prefixSize + snapshot.padding.length :=
  sound.padded.symm

theorem source_holds_header :
    snapshot.source.Holds snapshot.order 0 snapshot.imageHeader.words := by
  have split : snapshot.source.bytes.toList
      = [] ++ snapshot.imageHeader.words.flatMap snapshot.order.bytes
        ++ (snapshot.padding
          ++ (snapshot.records.flatMap ImageRecord.words).flatMap snapshot.order.bytes) := by
    simp [source, ByteSource.ofBytes, bytes]
  exact ByteSource.holds_of_append split

theorem source_holds_records (sound : snapshot.Sound) :
    snapshot.source.Holds snapshot.order snapshot.imageHeader.firstObject
      (snapshot.records.flatMap ImageRecord.words) := by
  have split : snapshot.source.bytes.toList
      = (snapshot.imageHeader.words.flatMap snapshot.order.bytes ++ snapshot.padding)
        ++ (snapshot.records.flatMap ImageRecord.words).flatMap snapshot.order.bytes ++ [] := by
    simp [source, ByteSource.ofBytes, bytes]
  have holds := ByteSource.holds_of_append split
  rwa [List.length_append, ByteOrder.length_flatMap_bytes, show
    4 * snapshot.imageHeader.words.length = ImageHeader.prefixSize from rfl,
    ← firstObject_imageHeader sound] at holds

/-- The part of the image that holds the objects. -/
def space (snapshot : Snapshot) : RecordSpace :=
  { source := snapshot.source
    order := snapshot.order
    start := snapshot.imageHeader.firstObject
    size := snapshot.imageHeader.endOfMemory.toNat }

theorem size_space (sound : snapshot.Sound) : snapshot.space.size = snapshot.memorySize := by
  have := sound.bounded
  simp only [space, imageHeader, UInt32.toNat_ofNat']
  omega

/-- The first pass registers an empty object for each object of the snapshot. -/
theorem registerFrom_space (sound : snapshot.Sound) {heap : Heap} (packed : heap.Packed [])
    (room : snapshot.objects.length ≤ heap.reach) :
    ∃ registered, Image.registerFrom snapshot.space 0 heap #[]
        = .ok (snapshot.entries.toArray, registered) ∧
      registered.Packed (snapshot.records.map Image.placeholder) := by
  have recordsSound : ∀ record ∈ snapshot.records, record.Sound := by
    intro record member
    obtain ⟨object, objectMember, rfl⟩ := List.mem_map.mp member
    exact record_sound sound objectMember
  have holds : snapshot.space.Holds 0 (snapshot.records.flatMap ImageRecord.words) :=
    source_holds_records sound
  have ends : 0 + Image.totalSize snapshot.records = snapshot.space.size := by
    rw [Nat.zero_add, totalSize_records, size_space sound]
  have enough : 0 + snapshot.records.length ≤ heap.reach := by
    simpa [records] using room
  obtain ⟨registered, registers, registeredPacked⟩ :=
    Image.registerFrom_of_holds recordsSound holds ends packed enough #[]
  refine ⟨registered, ?_, registeredPacked⟩
  rw [registers]
  simp [entries]

/-- The second pass gives every object what it was written with. -/
theorem foldlM_install_entries (sound : snapshot.Sound) {heap : Heap}
    (packed : heap.Packed (snapshot.records.map Image.placeholder)) :
    ∃ filled, snapshot.entries.toArray.foldlM snapshot.context.install heap = .ok filled ∧
      filled.table = Array.range snapshot.objects.length ∧
      ∀ index object, snapshot.objects[index]? = some object →
        ∃ species, snapshot.species? object.header = some species ∧
          filled.cell? index = some (snapshot.loaded species object) := by
  have decodes : ∀ entry ∈ snapshot.entries, ∃ found,
      snapshot.context.decode entry = .ok found := by
    intro entry member
    obtain ⟨index, listed⟩ := List.getElem?_of_mem member
    rw [getElem?_entries] at listed
    obtain ⟨object, found, rfl⟩ := Option.map_eq_some_iff.mp listed
    obtain ⟨species, named, _⟩ := (sound.writes object (List.mem_of_getElem? found)).species
    exact ⟨_, decode_entry sound found named⟩
  have apart : (snapshot.entries.map (·.value)).Nodup := by
    rw [entries, Image.map_value_entriesFrom]
    exact List.Pairwise.map _ (fun _ _ different same => different (Value.object.inj same))
      List.nodup_range'
  obtain ⟨filled, installs, sameTable, -, installed⟩ :=
    Image.Context.foldlM_install decodes apart heap
  refine ⟨filled, ?_, ?_, ?_⟩
  · rw [List.foldlM_toArray]
    exact installs
  · rw [sameTable, packed.table]
    simp [records]
  · intro index object found
    have writes := sound.writes object (List.mem_of_getElem? found)
    obtain ⟨species, named, _⟩ := writes.species
    refine ⟨species, named, ?_⟩
    have listed : snapshot.entry index object ∈ snapshot.entries := by
      apply List.mem_of_getElem?
      rw [getElem?_entries, found]
      rfl
    have fills := installed _ listed _ _ (decode_entry sound found named)
    change filled.cell? index = (heap.cell? index).map _ at fills
    rw [fills, packed.cell?_eq, List.getElem?_map, records, List.getElem?_map, found]
    simp only [Option.map_some, Image.placeholder, record, format_recordHeader writes,
      hash_recordHeader writes]
    rfl

theorem essential_address (sound : snapshot.Sound) {index : Nat} {object : SavedObject}
    (found : snapshot.objects[index]? = some object) (kind : EssentialObject) :
    Image.essential snapshot.directory (some (snapshot.address index)) kind
      = .ok (snapshot.entry index object) := by
  have entered := directory_address sound.bounded found
  simp only [Image.essential, Option.bind_some, entered]

theorem entry_getElem? (snapshot : Snapshot) (index : Nat) {object : SavedObject} {place : Nat} {value : Value}
    (found : object.body.values[place]? = some value) :
    (snapshot.entry index object).record.body[place]? = some (snapshot.word value) := by
  simpa [entry, record] using bodyWords_getElem? found

/-- Loading inverts writing. Whatever the objects, their headers, the order of the
bytes and the old addresses, the image of a snapshot is loaded if the table has room
for its objects, and the object with each number is the one that was written: it has
the class that its header names, its format, its hash and its body, with every
reference to the object that was meant. -/
theorem load_bytes (sound : snapshot.Sound) {config : Config}
    (room : snapshot.objects.length ≤ (Heap.ofConfig config).reach) :
    ∃ image, Image.load (.ofBytes snapshot.bytes.toArray) config = .ok image ∧
      image.header = snapshot.imageHeader ∧ image.order = snapshot.order ∧
      image.specialObjects = .object snapshot.specials ∧
      image.heap.table = Array.range snapshot.objects.length ∧
      ∀ index object, snapshot.objects[index]? = some object →
        ∃ species, snapshot.species? object.header = some species ∧
          image.heap.cell? index = some (snapshot.loaded species object) := by
  have ordered : ImageHeader.readOrder snapshot.source = .ok snapshot.order :=
    ImageHeader.readOrder_of_mark (source_holds_header.reads 0 _ rfl)
  have headed : ImageHeader.read snapshot.source snapshot.order = .ok snapshot.imageHeader :=
    ImageHeader.read_of_holds source_holds_header
      (Nat.le_trans (Nat.le_add_right ..) (source_holds_records sound).fits)
  obtain ⟨registered, registers, packed⟩ :=
    registerFrom_space sound (Heap.packed_ofConfig config snapshot.imageHeader.lastHash) room
  obtain ⟨filled, installs, table, cells⟩ := foldlM_install_entries sound packed
  -- The special objects are found in the directory, and through them the compact classes.
  obtain ⟨classes, isClasses⟩ := sound.compactClasses
  obtain ⟨specials, foundSpecials, classesField⟩ := Option.bind_eq_some_iff.mp isClasses
  obtain ⟨compact, foundCompact⟩ : ∃ compact, snapshot.objects[classes]? = some compact :=
    ⟨_, List.getElem?_eq_getElem (knows_field? sound isClasses)⟩
  have toSpecials := essential_address sound foundSpecials .specialObjects
  have toCompact := essential_address sound foundCompact .compactClasses
  have classesWord := entry_getElem? snapshot snapshot.specials classesField
  have compactWords_eq : (snapshot.entry classes compact).record.body = snapshot.compactWords := by
    simp [compactWords, isClasses, foundCompact, entry, record]
  -- The class of floats is read from the words of the special objects.
  obtain ⟨floats, isFloats⟩ := sound.floatClass
  have floatsField : specials.body.values[Special.floatClass]? = some (.object floats) := by
    simpa [field?, foundSpecials] using isFloats
  have floatsWord := entry_getElem? snapshot snapshot.specials floatsField
  refine ⟨{ header := snapshot.imageHeader, order := snapshot.order, heap := filled.tenure
            specialObjects := .object snapshot.specials }, ?_, rfl, rfl, rfl, table, cells⟩
  apply Image.load_of_passes ordered headed registers toSpecials
  · rw [classesWord]
    exact toCompact
  · rw [compactWords_eq, floatsWord]
    rw [context, isFloats] at installs
    exact installs

/-- A snapshot with every kind of header and of body. -/
def sample : Snapshot :=
  let names : List Value := (List.replicate Special.count (.object 0)).set Special.floatClass
    (.object 2) |>.set Special.compactClasses (.object 3)
  { objects :=
      [{ header := .withClass 1, format := 0, hash := 1, body := .pointers [] },
        { header := .withClass 1, format := 1, hash := 2
          body := .pointers [.object 0, .object 0, .ofInt 2] },
        { header := .withClass 1, format := 1, hash := 3
          body := .pointers [.object 0, .object 0, .ofInt 2] },
        { header := .withClass 1, format := 2, hash := 4, body := .pointers [.object 1] },
        { header := .withClass 1, format := 2, hash := 5, body := .pointers names },
        { header := .compact 1, format := 6, hash := 6, body := .words [3735928559, 7] },
        { header := .withSize 1, format := 11, hash := 7
          body := .bytes [104, 101, 108, 108, 111, 0, 0, 0] },
        { header := .withClass 1, format := 14, hash := 8
          body := .method ⟨512, by decide, by decide⟩ [.object 0] [112, 124, 0, 0] },
        { header := .withClass 2, format := 6, hash := 9, body := .words [1074003968, 0] },
        { header := .withClass 1, format := 2, hash := 10
          body := .pointers [.ofInt (-3), .object 5, .object 8] }]
    order := .little
    oldBase := 0x100000
    specials := 4
    headerSize := 64
    padding := List.replicate 28 0
    lastHash := 4660
    windowSize := 0
    fullScreen := 0
    extraMemory := 0 }

/-- The words of a float become its number, and references forward and back are
resolved. -/
theorem load_bytes_sample :
    sample.Sound ∧ sample.objects.length ≤ (Heap.ofConfig .compact).reach ∧
      ∃ image, Image.load (.ofBytes sample.bytes.toArray) .compact = .ok image ∧
        image.heap.cell? 8 = some
          { species := .object 2, format := 6, hash := 9, body := .float 4612811918334230528 } ∧
        image.heap.cell? 9 = some
          { species := .object 1, format := 2, hash := 10
            body := .pointers #[.ofInt (-3), .object 5, .object 8] } := by
  have sound : sample.Sound :=
    { aligned := by decide
      padded := by decide
      bounded := by decide
      writes := by decide +kernel
      compactClasses := ⟨3, by decide⟩
      floatClass := ⟨2, by decide⟩ }
  have room : sample.objects.length ≤ (Heap.ofConfig .compact).reach := by decide
  obtain ⟨image, loads, -, -, -, -, cells⟩ := load_bytes sound room
  refine ⟨sound, room, image, loads, ?_, ?_⟩
  · obtain ⟨species, named, found⟩ := cells 8 _ rfl
    cases named
    exact found
  · obtain ⟨species, named, found⟩ := cells 9 _ rfl
    cases named
    exact found

end Snapshot

end Smalltalk
