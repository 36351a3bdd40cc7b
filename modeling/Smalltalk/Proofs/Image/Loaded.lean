import Smalltalk.Proofs.Heap.Access
import Smalltalk.Proofs.Image.RoundTrip

namespace Smalltalk

/-! What holds of every image that was loaded, whatever the bytes were. The records
that were read stand one behind the other and take all the space there is; each has
become the object with its number, and whatever refers to anything there refers to
one of these objects. -/

/-! ## What was read is there -/

namespace ByteSource

variable {source : ByteSource} {order : ByteOrder} {place : Nat}

theorem isSome_word? : (source.word? order place).isSome ↔ place + 4 ≤ source.bytes.size := by
  simp only [word?, bind, Option.bind]
  by_cases whole : place + 4 ≤ source.bytes.size
  · simp [whole, show place < source.bytes.size by omega,
      show place + 1 < source.bytes.size by omega, show place + 2 < source.bytes.size by omega,
      show place + 3 < source.bytes.size by omega]
  · have last : source.bytes[place + 3]? = none := Array.getElem?_eq_none (by omega)
    refine ⟨fun read => ?_, fun here => absurd here whole⟩
    rw [last] at read
    revert read
    split <;> try simp
    split <;> try simp
    split <;> simp

theorem size_of_wordAt {word : UInt32}
    (read : (source.wordAt order place).mapError ImageError.unreadable = .ok word) :
    place + 4 ≤ source.bytes.size := by
  rw [wordAt] at read
  cases here : source.word? order place with
  | none =>
    rw [here] at read
    cases read
  | some found => exact isSome_word?.mp (Option.isSome_iff_exists.mpr ⟨found, here⟩)

theorem size_of_wordsAt {count : Nat} {body : Array UInt32}
    (read : (source.wordsAt order place count).mapError ImageError.unreadable = .ok body) :
    body.size = count := by
  rw [wordsAt] at read
  split at read
  · rw [← Except.ok.inj read, Array.size_ofFn]
  · cases read

end ByteSource

namespace RecordSpace

variable {space : RecordSpace} {offset : Nat}

theorem eq_of_checkHeader {header found : RecordHeader}
    (checked : space.checkHeader offset header = .ok found) : found = header := by
  rw [checkHeader] at checked
  split at checked
  · exact (Except.ok.inj checked).symm
  · cases checked

theorem inside_of_checkHeader {header found : RecordHeader}
    (checked : space.checkHeader offset header = .ok found) :
    offset + 4 * found.wordCount ≤ space.size := by
  rw [eq_of_checkHeader checked]
  rw [checkHeader] at checked
  split at checked
  · assumption
  · cases checked

/-- A header that was read lies inside the object memory, and so does its last word. -/
theorem inside_of_readHeader {header : RecordHeader}
    (headed : space.readHeader offset = .ok header) :
    offset + 4 * header.wordCount ≤ space.size ∧
      space.start + offset + 4 * header.wordCount ≤ space.source.bytes.size := by
  have read {bytes : Nat} {found : UInt32} (known : space.wordAt (offset + bytes) = .ok found) :
      space.start + offset + bytes + 4 ≤ space.source.bytes.size := by
    rw [wordAt] at known
    have := ByteSource.size_of_wordAt known
    omega
  rw [readHeader] at headed
  rcases bind_eq_ok_iff.mp headed with ⟨first, known, headed⟩
  split at headed
  · rcases bind_eq_ok_iff.mp headed with ⟨species, -, headed⟩
    rcases bind_eq_ok_iff.mp headed with ⟨base, last, checked⟩
    refine ⟨inside_of_checkHeader checked, ?_⟩
    rw [eq_of_checkHeader checked]
    exact read last
  · rcases bind_eq_ok_iff.mp headed with ⟨base, last, checked⟩
    refine ⟨inside_of_checkHeader checked, ?_⟩
    rw [eq_of_checkHeader checked]
    exact read last
  · cases headed
  · refine ⟨inside_of_checkHeader headed, ?_⟩
    rw [eq_of_checkHeader headed]
    exact @read 0 first known

theorem inside_of_readRecord {record : ImageRecord}
    (read : space.readRecord offset = .ok record) : offset + record.size ≤ space.size := by
  rw [readRecord] at read
  rcases bind_eq_ok_iff.mp read with ⟨header, headed, read⟩
  dsimp only at read
  split at read
  · cases read
  · rcases bind_eq_ok_iff.mp read with ⟨body, bodied, made⟩
    have counted := ByteSource.size_of_wordsAt bodied
    cases made
    rw [ImageRecord.size]
    dsimp only
    omega

/-! ## Records that fill the space -/

/-- From an offset on there stands one record behind the other, and the last one ends
where the space does. -/
inductive Tiled (space : RecordSpace) : (offset : Nat) → List ImageRecord → Prop
  | done : space.Tiled space.size []
  | next {offset : Nat} {record : ImageRecord} {rest : List ImageRecord}
      (read : space.readRecord offset = .ok record)
      (behind : space.Tiled (offset + record.size) rest) : space.Tiled offset (record :: rest)

/-- There is only one way to read the records. -/
theorem Tiled.unique {first second : List ImageRecord} (one : space.Tiled offset first)
    (other : space.Tiled offset second) : first = second := by
  induction one generalizing second with
  | done =>
    cases other with
    | done => rfl
    | next read _ =>
      have inside := inside_of_readRecord read
      have := ImageRecord.size_pos ‹_›
      omega
  | @next offset record rest read behind ih =>
    have more := record.size_pos
    have inside := inside_of_readRecord read
    cases other with
    | done => omega
    | next again follows =>
      rw [read] at again
      cases again
      rw [ih follows]

end RecordSpace

namespace LoadedRecord

/-- The byte with an offset belongs to the record. -/
def Covers (entry : LoadedRecord) (byte : Nat) : Prop :=
  entry.offset ≤ byte ∧ byte < entry.offset + entry.record.size

end LoadedRecord

namespace Image

variable {space : RecordSpace} {offset slot : Nat}

theorem mem_entriesFrom {records : List ImageRecord} {entry : LoadedRecord} :
    entry ∈ entriesFrom offset slot records ↔ ∃ index record, records[index]? = some record ∧
      entry = { record, offset := offset + totalSize (records.take index),
                value := .object (slot + index) } := by
  simp only [List.mem_iff_getElem?, getElem?_entriesFrom, Option.map_eq_some_iff,
    @eq_comm _ entry]

/-- Records that fill the space leave no gap and do not overlap. -/
theorem existsUnique_covers {records : List ImageRecord} (tiled : space.Tiled offset records)
    {byte : Nat} (behind : offset ≤ byte) (before : byte < space.size) :
    ∃! entry, entry ∈ entriesFrom offset slot records ∧ entry.Covers byte := by
  induction tiled generalizing slot with
  | done => omega
  | @next offset record rest read tiled ih =>
    have later {slot : Nat} {entry : LoadedRecord}
        (member : entry ∈ entriesFrom (offset + record.size) slot rest) :
        offset + record.size ≤ entry.offset := by
      rcases mem_entriesFrom.mp member with ⟨index, record, -, rfl⟩
      exact Nat.le_add_right ..
    by_cases here : byte < offset + record.size
    · refine ⟨{ record, offset, value := .object slot },
        ⟨List.mem_cons_self .., behind, here⟩, ?_⟩
      rintro other ⟨member, covers, -⟩
      rcases List.mem_cons.mp member with same | further
      · exact same
      · have := later further
        omega
    · rcases @ih (slot + 1) (Nat.not_lt.mp here) with ⟨entry, ⟨member, covers⟩, only⟩
      refine ⟨entry, ⟨List.mem_cons_of_mem _ member, covers⟩, ?_⟩
      rintro other ⟨otherMember, otherCovers⟩
      rcases List.mem_cons.mp otherMember with rfl | further
      · exact absurd otherCovers.2 here
      · exact only other ⟨further, otherCovers⟩

/-- They do not reach beyond it either. -/
theorem before_of_covers {records : List ImageRecord} (tiled : space.Tiled offset records)
    {entry : LoadedRecord} (member : entry ∈ entriesFrom offset slot records) {byte : Nat}
    (covers : entry.Covers byte) : byte < space.size := by
  induction tiled generalizing slot with
  | done => exact absurd member List.not_mem_nil
  | next read tiled ih =>
    rcases List.mem_cons.mp member with rfl | further
    · exact Nat.lt_of_lt_of_le covers.2 (RecordSpace.inside_of_readRecord read)
    · exact ih further

end Image

/-! ## The first pass -/

namespace Heap

/-- An object that is registered where there are no gaps gets the next number. -/
theorem Packed.of_registerLoaded {heap next : Heap} {objects : List HeapObject}
    {object : HeapObject} {value : Value} (packed : heap.Packed objects)
    (registers : heap.registerLoaded object = .ok (value, next)) :
    value = .object objects.length ∧ next.Packed (objects ++ [object]) := by
  have placed {wide : Heap} (same : wide.Packed objects)
      (places : wide.advanceHash.place object = (value, next)) :
      value = .object objects.length ∧ next.Packed (objects ++ [object]) := by
    rcases same.place object with ⟨filled, found, filledPacked, -⟩
    rw [found] at places
    cases places
    exact ⟨rfl, filledPacked⟩
  rw [Heap.registerLoaded] at registers
  split at registers
  · rcases bind_eq_ok_iff.mp registers with ⟨wide, widened, places⟩
    rw [grow] at widened
    split at widened
    · cases widened
    · cases widened
      refine placed ?_ (Except.ok.inj places)
      exact ⟨packed.cells, packed.table, packed.free⟩
  · exact placed packed (Except.ok.inj registers)

end Heap

namespace Image

variable {space : RecordSpace} {loaded found : Array LoadedRecord} {heap filled : Heap}

/-- The first pass has read the records one behind the other up to the end of the space and
has registered an object for each. -/
theorem tiled_of_registerFrom {offset : Nat} {objects : List HeapObject}
    (inside : offset ≤ space.size) (packed : heap.Packed objects)
    (registers : registerFrom space offset heap loaded = .ok (found, filled)) :
    ∃ records, space.Tiled offset records ∧
      found = loaded ++ (entriesFrom offset objects.length records).toArray ∧
      filled.Packed (objects ++ records.map placeholder) := by
  fun_induction registerFrom space offset heap loaded generalizing objects with
  | case1 offset heap loaded ended =>
    cases registers
    obtain rfl : offset = space.size := Nat.le_antisymm inside ended
    exact ⟨[], .done, by simp [entriesFrom], by simpa using packed⟩
  | case2 => cases registers
  | case3 => cases registers
  | case4 offset heap loaded more record read value next registered ih =>
    rcases packed.of_registerLoaded registered with ⟨rfl, nextPacked⟩
    rcases ih (RecordSpace.inside_of_readRecord read) nextPacked registers with
      ⟨records, tiled, rfl, filledPacked⟩
    refine ⟨record :: records, .next read tiled, ?_, by simpa using filledPacked⟩
    simp [entriesFrom]

/-! ## The second pass -/

/-- What the directory knows is a record that was read, under its old address. -/
theorem mem_of_directory {oldBase address : UInt32} {entry : LoadedRecord}
    (entered : (directory oldBase loaded)[address]? = some entry) :
    entry ∈ loaded ∧ addressOf oldBase entry = address := by
  have inList {entries : List LoadedRecord} {known : Directory}
      (entered : (entries.foldl
        (fun known entry => known.insert (addressOf oldBase entry) entry) known)[address]?
          = some entry) :
      known[address]? = some entry ∨ entry ∈ entries ∧ addressOf oldBase entry = address := by
    induction entries generalizing known with
    | nil => exact .inl entered
    | cons other rest ih =>
      rcases ih entered with before | ⟨member, same⟩
      · rw [Std.HashMap.getElem?_insert] at before
        split at before
        · rename_i same
          cases before
          exact .inr ⟨List.mem_cons_self .., by simpa using same⟩
        · exact .inl before
      · exact .inr ⟨List.mem_cons_of_mem _ member, same⟩
  rw [directory, ← Array.foldl_toList] at entered
  rcases inList entered with none | ⟨member, same⟩
  · simp at none
  · exact ⟨by simpa using member, same⟩

end Image

namespace ImageRecord

/-- The words of the body that stand for values: all fields, or the header and the literals
of a method. -/
def valueWords (record : ImageRecord) : Array UInt32 :=
  if Format.isPointers record.header.format then record.body
  else if Format.isMethod record.header.format then
    record.body.take (Image.Context.literalCount record.body)
  else #[]

end ImageRecord

namespace Image

/-- A word stands for a value: an odd one for a small integer, an even one for the object
whose record had it as its address. -/
def Stands (oldBase : UInt32) (entries : List LoadedRecord) (word : UInt32) (value : Value) :
    Prop :=
  if word.toNat % 2 = 1 then value = .ofWord word
  else ∃ entry ∈ entries, addressOf oldBase entry = word ∧ entry.value = value

/-- A word stands for nothing but small integers and loaded objects. -/
theorem Stands.known {oldBase word : UInt32} {read : List ImageRecord} {value : Value}
    (stands : Stands oldBase (entriesFrom 0 0 read) word value) :
    (∃ n, value = .small n) ∨ ∃ index < read.length, value = .object index := by
  rw [Stands] at stands
  split at stands
  · left
    rw [stands, Value.ofWord]
    split
    · omega
    · split <;> exact ⟨_, rfl⟩
  · rcases stands with ⟨entry, member, -, rfl⟩
    rcases mem_entriesFrom.mp member with ⟨index, record, listed, rfl⟩
    exact .inr ⟨0 + index, by simpa using (List.getElem?_eq_some_iff.mp listed).1, rfl⟩

namespace Context

variable {context : Context} {holder : UInt32}

theorem stands_of_resolve {loaded : Array LoadedRecord} {word : UInt32} {value : Value}
    (knows : context.directory = Image.directory context.oldBase loaded)
    (resolved : context.resolve holder word = .ok value) :
    Stands context.oldBase loaded.toList word value := by
  rw [resolve] at resolved
  rw [Stands]
  split at resolved
  · rename_i odd
    rw [if_pos odd]
    exact (Except.ok.inj resolved).symm
  · rename_i even
    rw [if_neg even]
    rw [knows] at resolved
    split at resolved
    · rename_i entry entered
      rcases mem_of_directory entered with ⟨member, same⟩
      exact ⟨entry, by simpa using member, same, Except.ok.inj resolved⟩
    · cases resolved

theorem forall₂_of_resolveAll {words : Array UInt32} {values : Array Value}
    (resolved : context.resolveAll holder words = .ok values) :
    List.Forall₂ (fun word value => context.resolve holder word = .ok value) words.toList
      values.toList := by
  have onList {words : List UInt32} {values : List Value}
      (resolved : words.mapM (context.resolve holder) = .ok values) :
      List.Forall₂ (fun word value => context.resolve holder word = .ok value) words values := by
    induction words generalizing values with
    | nil =>
      cases resolved
      exact .nil
    | cons word rest ih =>
      rw [List.mapM_cons] at resolved
      rcases bind_eq_ok_iff.mp resolved with ⟨value, first, resolved⟩
      rcases bind_eq_ok_iff.mp resolved with ⟨others, later, made⟩
      cases made
      exact .cons first (ih later)
  rw [resolveAll, ← @Array.toArray_toList _ words, List.mapM_toArray] at resolved
  cases each : words.toList.mapM (context.resolve holder) with
  | error error =>
    rw [each] at resolved
    cases resolved
  | ok list =>
    rw [each] at resolved
    cases resolved
    exact onList each

/-- The values of an object are what the words of its record stand for. -/
theorem values_of_decode {entry : LoadedRecord} {species : Value} {body : Body}
    (decodes : context.decode entry = .ok (species, body)) :
    (∃ word, context.resolve (entry.record.address context.oldBase entry.offset) word
        = .ok species) ∧
      context.resolveAll (entry.record.address context.oldBase entry.offset)
        entry.record.valueWords = .ok (body.pointers?.getD #[]) := by
  rw [decode] at decodes
  split at decodes
  · cases decodes
  · rename_i word named
    rcases bind_eq_ok_iff.mp decodes with ⟨found, resolved, decodes⟩
    rcases bind_eq_ok_iff.mp decodes with ⟨read, decoded, made⟩
    cases made
    refine ⟨⟨word, resolved⟩, ?_⟩
    rw [ImageRecord.valueWords]
    rw [decodeBody] at decoded
    split at decoded
    · rename_i pointers
      rcases bind_eq_ok_iff.mp decoded with ⟨fields, filled, made⟩
      cases made
      rwa [if_pos pointers]
    · rename_i notPointers
      rw [if_neg notPointers]
      split at decoded
      · rename_i method
        rcases bind_eq_ok_iff.mp decoded with ⟨literals, filled, made⟩
        cases made
        rwa [if_pos method]
      · rename_i notMethod
        rw [if_neg notMethod]
        have none : body.pointers? = none := by
          split at decoded
          · cases decoded
            rfl
          · split at decoded
            · split at decoded <;> cases decoded <;> rfl
            · cases decoded
              rfl
        rw [none, resolveAll, Array.mapM_empty]
        rfl

/-- When all records were installed, each of them could be decoded. -/
theorem decodes_of_foldlM {entries : List LoadedRecord} {heap filled : Heap}
    (installs : entries.foldlM context.install heap = .ok filled) :
    ∀ entry ∈ entries, ∃ found, context.decode entry = .ok found := by
  induction entries generalizing heap with
  | nil => exact fun _ member => absurd member List.not_mem_nil
  | cons entry rest ih =>
    rw [List.foldlM_cons] at installs
    rcases bind_eq_ok_iff.mp installs with ⟨next, first, later⟩
    rw [install] at first
    rcases bind_eq_ok_iff.mp first with ⟨found, decoded, -⟩
    exact List.forall_mem_cons.mpr ⟨⟨found, decoded⟩, ih later⟩

end Context

/-! ## Both passes -/

/-- The part of a source that holds the objects of an image. -/
def records (source : ByteSource) (order : ByteOrder) (header : ImageHeader) : RecordSpace :=
  { source, order, start := header.firstObject, size := header.endOfMemory.toNat }

/-- An image is loaded only when both passes succeed and the special objects are there. -/
theorem passes_of_load {source : ByteSource} {config : Config} {image : Image}
    (loads : load source config = .ok image) :
    ∃ (loaded : Array LoadedRecord) (registered filled : Heap) (specials compact : LoadedRecord),
      ImageHeader.readOrder source = .ok image.order ∧
      ImageHeader.read source image.order = .ok image.header ∧
      registerFrom (records source image.order image.header) 0
        ((Heap.ofConfig config).seedHash image.header.lastHash) #[] = .ok (loaded, registered) ∧
      essential (directory image.header.oldBase loaded) (some image.header.specialObjects)
        .specialObjects = .ok specials ∧
      essential (directory image.header.oldBase loaded)
        specials.record.body[Special.compactClasses]? .compactClasses = .ok compact ∧
      loaded.foldlM
        (Context.install
          { order := image.order
            oldBase := image.header.oldBase
            directory := directory image.header.oldBase loaded
            compactClasses := compact.record.body
            floatClass := specials.record.body[Special.floatClass]? })
        registered = .ok filled ∧
      image.heap = filled.tenure ∧ image.specialObjects = specials.value := by
  rw [load] at loads
  rcases bind_eq_ok_iff.mp loads with ⟨order, ordered, loads⟩
  rcases bind_eq_ok_iff.mp loads with ⟨header, headed, loads⟩
  rcases bind_eq_ok_iff.mp loads with ⟨⟨loaded, registered⟩, registers, loads⟩
  rcases bind_eq_ok_iff.mp loads with ⟨specials, toSpecials, loads⟩
  rcases bind_eq_ok_iff.mp loads with ⟨compact, toCompact, loads⟩
  rcases bind_eq_ok_iff.mp loads with ⟨filled, installs, made⟩
  cases made
  exact ⟨loaded, registered, filled, specials, compact, ordered, headed, registers, toSpecials,
    toCompact, installs, rfl, rfl⟩

/-- An image holds the records that were read from a source: one object for each, in order,
with what the record says of it, and nothing else. -/
structure Holds (image : Image) (source : ByteSource) (read : List ImageRecord) (context : Context) :
    Prop where
  ordered : ImageHeader.readOrder source = .ok image.order
  headed : ImageHeader.read source image.order = .ok image.header
  tiled : (records source image.order image.header).Tiled 0 read
  order : context.order = image.order
  oldBase : context.oldBase = image.header.oldBase
  directory : context.directory
    = directory image.header.oldBase (entriesFrom 0 0 read).toArray
  table : image.heap.table = Array.range read.length
  tenured : image.heap.tenured = read.length
  cells : ∀ entry ∈ entriesFrom 0 0 read, ∃ species body,
    context.decode entry = .ok (species, body) ∧
      image.heap.get? entry.value = some { placeholder entry.record with species, body }
  only : ∀ slot, read.length ≤ slot → image.heap.cell? slot = none
  special : ∃ entry ∈ entriesFrom 0 0 read,
    addressOf image.header.oldBase entry = image.header.specialObjects ∧
      image.specialObjects = entry.value

/-- The bytes determine what the image and the records are described by. -/
theorem Holds.describes {image : Image} {source : ByteSource} {read records : List ImageRecord}
    {context : Context} {order : ByteOrder} {header : ImageHeader}
    (holds : image.Holds source read context)
    (ordered : ImageHeader.readOrder source = .ok order)
    (headed : ImageHeader.read source order = .ok header)
    (tiled : (Image.records source order header).Tiled 0 records) :
    image.order = order ∧ image.header = header ∧ read = records := by
  cases Except.ok.inj (ordered.symm.trans holds.ordered)
  cases Except.ok.inj (headed.symm.trans holds.headed)
  exact ⟨rfl, rfl, holds.tiled.unique tiled⟩

/-- The special objects, which an address names, name a record with these words for the
compact classes. -/
def NamesCompactClasses (oldBase special : UInt32) (entries : List LoadedRecord)
    (words : Array UInt32) : Prop :=
  ∃ specials ∈ entries, ∃ compact ∈ entries, addressOf oldBase specials = special ∧
    specials.record.body[Special.compactClasses]? = some (addressOf oldBase compact) ∧
    compact.record.body = words

/-- The record that an address has to name is one that was read. -/
theorem mem_of_essential {oldBase : UInt32} {address : Option UInt32} {object : EssentialObject}
    {loaded : Array LoadedRecord} {entry : LoadedRecord}
    (found : essential (directory oldBase loaded) address object = .ok entry) :
    entry ∈ loaded.toList ∧ address = some (addressOf oldBase entry) := by
  rw [essential] at found
  split at found
  · rename_i other entered
    cases found
    rcases Option.bind_eq_some_iff.mp entered with ⟨word, rfl, entered⟩
    rcases mem_of_directory entered with ⟨member, same⟩
    exact ⟨by simpa using member, congrArg some same.symm⟩
  · cases found

/-- A loaded image holds what was read, and its context has the words of the compact classes. -/
theorem holds_with_compact_of_load {source : ByteSource} {config : Config} {image : Image}
    (loads : load source config = .ok image) :
    ∃ read context, image.Holds source read context ∧
      NamesCompactClasses image.header.oldBase image.header.specialObjects (entriesFrom 0 0 read)
        context.compactClasses := by
  rcases passes_of_load loads with ⟨loaded, registered, filled, specials, compact, ordered, headed,
    registers, toSpecials, toCompact, installs, sameHeap, sameSpecials⟩
  rcases tiled_of_registerFrom (Nat.zero_le _) (Heap.packed_ofConfig config image.header.lastHash)
    registers with ⟨read, tiled, rfl, packed⟩
  rw [List.nil_append] at packed
  rw [List.length_nil, Array.empty_append] at toSpecials toCompact installs
  rcases mem_of_essential toSpecials with ⟨isSpecials, specialsAddress⟩
  rcases mem_of_essential toCompact with ⟨isCompact, compactAddress⟩
  rw [List.toList_toArray] at isSpecials isCompact
  rw [List.foldlM_toArray] at installs
  have apart : ((entriesFrom 0 0 read).map (·.value)).Nodup := by
    rw [map_value_entriesFrom]
    exact List.Pairwise.map _ (fun _ _ different same => different (Value.object.inj same))
      List.nodup_range'
  have decodes := Context.decodes_of_foldlM installs
  rcases Context.foldlM_install decodes apart registered with
    ⟨again, reinstalls, sameTable, elsewhere, installed⟩
  rw [installs] at reinstalls
  cases reinstalls
  have table : filled.table = Array.range read.length := by
    rw [sameTable, packed.table, List.length_map]
  refine ⟨read,
    { order := image.order
      oldBase := image.header.oldBase
      directory := directory image.header.oldBase (entriesFrom 0 0 read).toArray
      compactClasses := compact.record.body
      floatClass := specials.record.body[Special.floatClass]? },
    { ordered, headed, tiled, order := rfl, oldBase := rfl, directory := rfl
      table := by rw [sameHeap]; exact table
      tenured := by rw [sameHeap]; exact (congrArg Array.size table).trans Array.size_range
      cells := ?_
      only := ?_
      special := ⟨specials, isSpecials, (Option.some.inj specialsAddress).symm, sameSpecials⟩ },
    specials, isSpecials, compact, isCompact, (Option.some.inj specialsAddress).symm,
    compactAddress, rfl⟩
  · intro entry member
    rcases decodes entry member with ⟨⟨species, body⟩, decoded⟩
    refine ⟨species, body, decoded, ?_⟩
    have found : registered.get? entry.value = some (placeholder entry.record) := by
      rcases mem_entriesFrom.mp member with ⟨index, record, listed, rfl⟩
      refine (packed.cell?_eq (0 + index)).trans ?_
      rw [List.getElem?_map, Nat.zero_add, listed]
      rfl
    rw [sameHeap]
    refine (installed entry member species body decoded).trans ?_
    rw [found]
    rfl
  · intro slot beyond
    rw [sameHeap]
    refine (elsewhere (.object slot) ?_).trans ((packed.cell?_eq slot).trans ?_)
    · rw [map_value_entriesFrom]
      simpa using beyond
    · simpa using beyond

theorem holds_of_load {source : ByteSource} {config : Config} {image : Image}
    (loads : load source config = .ok image) :
    ∃ read context, image.Holds source read context := by
  rcases holds_with_compact_of_load loads with ⟨read, context, holds, -⟩
  exact ⟨read, context, holds⟩

namespace Holds

variable {image : Image} {source : ByteSource} {read : List ImageRecord} {context : Context}

/-- The values of an object are what the words of its record stand for. -/
theorem stands (holds : image.Holds source read context) {index : Nat} {record : ImageRecord}
    (listed : read[index]? = some record) : ∃ object, image.heap.cell? index = some object ∧
      object.format = record.header.format ∧ object.hash = record.header.hash ∧
      (∃ word, Stands image.header.oldBase (entriesFrom 0 0 read) word object.species) ∧
      List.Forall₂ (Stands image.header.oldBase (entriesFrom 0 0 read)) record.valueWords.toList
        (object.pointers?.getD #[]).toList := by
  have member := (@mem_entriesFrom 0 0 read _).mpr ⟨index, record, listed, rfl⟩
  rcases holds.cells _ member with ⟨species, body, decodes, found⟩
  change image.heap.cell? (0 + index) = _ at found
  rw [Nat.zero_add] at found
  refine ⟨_, found, rfl, rfl, ?_⟩
  have knows : context.directory
      = Image.directory context.oldBase (entriesFrom 0 0 read).toArray := by
    rw [holds.directory, holds.oldBase]
  rcases Context.values_of_decode decodes with ⟨⟨word, resolved⟩, each⟩
  rw [← holds.oldBase]
  refine ⟨⟨word, Context.stands_of_resolve knows resolved⟩, ?_⟩
  exact (Context.forall₂_of_resolveAll each).imp fun _ _ resolved =>
    Context.stands_of_resolve knows resolved

/-- Nothing refers to what was not loaded. -/
theorem references (holds : image.Holds source read context) {index : Nat} {object : HeapObject}
    (found : image.heap.cell? index = some object) {value : Value}
    (refers : value ∈ object.references) :
    (∃ n, value = .small n) ∨ ∃ index < read.length, value = .object index := by
  rcases Nat.lt_or_ge index read.length with inside | beyond
  · rcases holds.stands (List.getElem?_eq_getElem inside) with
      ⟨same, here, -, -, ⟨word, isSpecies⟩, areFields⟩
    rw [here] at found
    cases found
    rcases List.mem_cons.mp refers with rfl | member
    · exact isSpecies.known
    · obtain ⟨place, within, rfl⟩ := List.getElem_of_mem member
      have length := areFields.length_eq
      exact ((List.forall₂_iff_get.mp areFields).2 place (by omega) within).known
  · rw [holds.only index beyond] at found
    cases found

/-- Every even word among the values of a record is the address of a record. -/
theorem address_of_even (holds : image.Holds source read context) {entry : LoadedRecord}
    (member : entry ∈ entriesFrom 0 0 read) {word : UInt32} (isValue : word ∈ entry.record.valueWords)
    (even : word.toNat % 2 = 0) :
    ∃ other ∈ entriesFrom 0 0 read, addressOf image.header.oldBase other = word := by
  rcases mem_entriesFrom.mp member with ⟨index, record, listed, rfl⟩
  rcases holds.stands listed with ⟨object, -, -, -, -, areFields⟩
  obtain ⟨place, within, rfl⟩ := List.getElem_of_mem (Array.mem_toList_iff.mpr isValue)
  have stands := (List.forall₂_iff_get.mp areFields).2 place within
    (areFields.length_eq ▸ within)
  rw [Stands, List.get_eq_getElem, if_neg (by dsimp only at even ⊢; omega)] at stands
  rcases stands with ⟨other, otherMember, same, -⟩
  exact ⟨other, otherMember, same⟩

end Holds

end Image

end Smalltalk
