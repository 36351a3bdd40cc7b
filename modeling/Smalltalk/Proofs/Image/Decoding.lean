import Smalltalk.Proofs.Image.Snapshot

namespace Smalltalk

/-! The second pass knows every object by its address. A word that a value was
written as is resolved to the value again, and so the class and the body of every
object are found as they were before they were written. -/

/-! ## The directory -/

namespace Image

/-- The old address of a record that has been read. -/
def addressOf (oldBase : UInt32) (entry : LoadedRecord) : UInt32 :=
  entry.record.address oldBase entry.offset

/-- Entering records that have other addresses does not hide an entry. -/
theorem foldl_insert_of_mem {oldBase : UInt32} {entry : LoadedRecord}
    {loaded : List LoadedRecord}
    (apart : ∀ other ∈ loaded, addressOf oldBase other = addressOf oldBase entry → other = entry)
    {entries : Directory}
    (here : entry ∈ loaded ∨ entries[addressOf oldBase entry]? = some entry) :
    (loaded.foldl (fun entries other => entries.insert (addressOf oldBase other) other)
      entries)[addressOf oldBase entry]? = some entry := by
  induction loaded generalizing entries with
  | nil => simpa using here
  | cons other rest ih =>
    rw [List.foldl_cons]
    apply ih fun another member => apart another (List.mem_cons_of_mem _ member)
    by_cases same : addressOf oldBase other = addressOf oldBase entry
    · obtain rfl := apart other (List.mem_cons_self ..) same
      exact .inr Std.HashMap.getElem?_insert_self
    · rcases here with member | entered
      · rcases List.mem_cons.mp member with rfl | later
        · exact absurd rfl same
        · exact .inl later
      · right
        rw [Std.HashMap.getElem?_insert, if_neg (by simpa using same), entered]

theorem directory_of_mem {oldBase : UInt32} {loaded : Array LoadedRecord} {entry : LoadedRecord}
    (member : entry ∈ loaded)
    (apart : ∀ other ∈ loaded, addressOf oldBase other = addressOf oldBase entry → other = entry) :
    (directory oldBase loaded)[addressOf oldBase entry]? = some entry := by
  rw [directory, ← Array.foldl_toList]
  exact foldl_insert_of_mem (by simpa using apart) (.inl (by simpa using member))

theorem getElem?_entriesFrom (records : List ImageRecord) (offset slot index : Nat) :
    (entriesFrom offset slot records)[index]?
      = records[index]?.map fun record =>
          { record, offset := offset + totalSize (records.take index),
            value := .object (slot + index) } := by
  induction records generalizing offset slot index with
  | nil => simp [entriesFrom]
  | cons record rest ih =>
    cases index with
    | zero => simp [entriesFrom, totalSize]
    | succ index =>
      simp only [entriesFrom, List.getElem?_cons_succ, ih, List.take_succ_cons, totalSize,
        Nat.add_assoc, Nat.add_comm 1]

end Image

/-! ## Formats -/

namespace Format

variable {format : Nat}

theorem isWords_only (kind : isWords format = true) :
    isPointers format = false ∧ isMethod format = false ∧ isBytes format = false := by
  simp [isWords, isPointers, isMethod, isBytes] at kind ⊢
  omega

theorem isBytes_only (kind : isBytes format = true) :
    isPointers format = false ∧ isMethod format = false := by
  simp [isBytes, isPointers, isMethod] at kind ⊢
  omega

theorem isMethod_only (kind : isMethod format = true) : isPointers format = false := by
  simp [isMethod, isPointers] at kind ⊢
  omega

end Format

/-! ## Words -/

theorem Value.ofWord_toWord_small (n : SmallInt) :
    (Value.small n).toWord.toNat % 2 = 1 ∧ Value.ofWord (Value.small n).toWord = .small n := by
  have lower := n.lower
  have upper := n.upper
  simp only [SmallInt.minimum, SmallInt.maximum] at lower upper
  have payload : (Value.small n).toWord.toNat = ((2 * n.val + 1) % 4294967296).toNat := by
    simp only [Value.toWord, UInt32.toNat_ofNat']
    omega
  have odd : (Value.small n).toWord.toNat % 2 = 1 := by omega
  refine ⟨odd, ?_⟩
  simp only [Value.ofWord, payload]
  split
  · omega
  · split <;>
    · congr 1
      apply SmallInt.ext
      simp only
      omega

/-- The number of literals can be read off the word of a header. -/
theorem MethodHeader.literalCount_toWord (n : SmallInt) :
    (Value.small n).toWord.toNat / 1024 % 256 = (MethodHeader.mk n.val).literalCount := by
  have lower := n.lower
  have upper := n.upper
  simp only [SmallInt.minimum, SmallInt.maximum] at lower upper
  simp only [Value.toWord, UInt32.toNat_ofNat', MethodHeader.literalCount]
  omega

namespace Image.Context

/-- Bytes that were packed into words come out in the same order. -/
theorem unpack_pack (context : Context) (format : Nat) (data : List UInt8)
    (whole : data.length % 4 = 0) :
    context.unpack format (context.order.pack data).toArray = Snapshot.used format data := by
  have flat : (context.order.pack data).toArray.flatMap
      (fun word => (context.order.bytes word).toArray) = data.toArray := by
    apply Array.toList_inj.mp
    simp [context.order.flatMap_bytes_pack data whole]
  simp [unpack, Snapshot.used, flat]

theorem resolveAll_of_resolve {context : Context} {holder : UInt32} {values : List Value}
    {word : Value → UInt32}
    (resolves : ∀ value ∈ values, context.resolve holder (word value) = .ok value) :
    context.resolveAll holder (values.map word).toArray = .ok values.toArray := by
  have onList : (values.map word).mapM (context.resolve holder) = .ok values := by
    induction values with
    | nil => rfl
    | cons value rest ih =>
      have restResolves := ih fun other member => resolves other (List.mem_cons_of_mem _ member)
      simp only [List.map_cons, List.mapM_cons, resolves value (List.mem_cons_self ..),
        restResolves, bind, Except.bind, pure, Except.pure]
  rw [resolveAll, List.mapM_toArray, onList]
  rfl

variable {context : Context} {holder species : UInt32} {format : Nat} {words : Array UInt32}

theorem decodeBody_pointers (kind : Format.isPointers format = true) {fields : Array Value}
    (resolved : context.resolveAll holder words = .ok fields) :
    context.decodeBody holder species format words = .ok (.pointers fields) := by
  simp only [decodeBody, kind, if_true, resolved]
  rfl

theorem decodeBody_method (kind : Format.isMethod format = true) {count : Nat}
    (announced : literalCount words = count) {literals : Array Value}
    (resolved : context.resolveAll holder (words.take count) = .ok literals) :
    context.decodeBody holder species format words
      = .ok (.method literals (context.unpack format (words.drop count))) := by
  simp only [decodeBody, Format.isMethod_only kind, kind, Bool.false_eq_true, if_true, if_false,
    announced, resolved]
  rfl

theorem decodeBody_bytes (kind : Format.isBytes format = true) :
    context.decodeBody holder species format words = .ok (.bytes (context.unpack format words)) := by
  obtain ⟨notPointers, notMethod⟩ := Format.isBytes_only kind
  simp only [decodeBody, notPointers, notMethod, kind, Bool.false_eq_true, if_true, if_false]
  rfl

theorem decodeBody_words (kind : Format.isWords format = true) (data : List UInt32) :
    context.decodeBody holder species format data.toArray
      = .ok (Snapshot.wordsBody (some species = context.floatClass) data) := by
  obtain ⟨notPointers, notMethod, notBytes⟩ := Format.isWords_only kind
  simp only [decodeBody, notPointers, notMethod, notBytes, Bool.false_eq_true, if_false]
  match data with
  | [] | [_] | _ :: _ :: _ :: _ => rfl
  | [high, low] =>
    simp only [Snapshot.wordsBody]
    split <;> rfl

end Image.Context

namespace Snapshot

variable {snapshot : Snapshot}

/-! ## The image as the second pass finds it -/

/-- What the first pass finds out about the objects of a snapshot. -/
def entries (snapshot : Snapshot) : List LoadedRecord := Image.entriesFrom 0 0 snapshot.records

/-- What it finds out about one of them. -/
def entry (snapshot : Snapshot) (index : Nat) (object : SavedObject) : LoadedRecord :=
  { record := snapshot.record object
    offset := snapshot.offset index
    value := .object index }

theorem getElem?_entries (index : Nat) :
    snapshot.entries[index]? = snapshot.objects[index]?.map (snapshot.entry index) := by
  rw [entries, Image.getElem?_entriesFrom, totalSize_take_records, records, List.getElem?_map,
    Option.map_map]
  simp only [Nat.zero_add]
  rfl

theorem addressOf_entry {index : Nat} {object : SavedObject}
    (found : snapshot.objects[index]? = some object) :
    Image.addressOf snapshot.oldBase (snapshot.entry index object) = snapshot.address index := by
  simp [Image.addressOf, ImageRecord.address, entry, record, address, basePlace, found]

/-- The directory of the objects of a snapshot. -/
def directory (snapshot : Snapshot) : Image.Directory :=
  Image.directory snapshot.oldBase snapshot.entries.toArray

theorem directory_address (bounded : snapshot.memorySize < 4294967296) {index : Nat}
    {object : SavedObject} (found : snapshot.objects[index]? = some object) :
    snapshot.directory[snapshot.address index]? = some (snapshot.entry index object) := by
  rw [← addressOf_entry found]
  have listed : snapshot.entries[index]? = some (snapshot.entry index object) := by
    rw [getElem?_entries, found]
    rfl
  apply Image.directory_of_mem
  · simpa using List.mem_of_getElem? listed
  · intro other member same
    obtain ⟨place, otherListed⟩ := List.getElem?_of_mem (List.mem_toArray.mp member)
    rw [getElem?_entries] at otherListed
    obtain ⟨otherObject, otherFound, rfl⟩ := Option.map_eq_some_iff.mp otherListed
    rw [addressOf_entry otherFound, addressOf_entry found] at same
    obtain rfl := address_inj bounded (List.getElem?_eq_some_iff.mp otherFound).1
      (List.getElem?_eq_some_iff.mp found).1 same
    rw [otherFound] at found
    cases found
    rfl

/-- The words of the object with the compact classes. -/
def compactWords (snapshot : Snapshot) : Array UInt32 :=
  match snapshot.field? snapshot.specials Special.compactClasses with
  | some (.object index) =>
    match snapshot.objects[index]? with
    | some object => (snapshot.bodyWords object.body).toArray
    | none => #[]
  | _ => #[]

/-- What the second pass knows of the image of a snapshot. -/
def context (snapshot : Snapshot) : Image.Context :=
  { order := snapshot.order
    oldBase := snapshot.oldBase
    directory := snapshot.directory
    compactClasses := snapshot.compactWords
    floatClass := (snapshot.field? snapshot.specials Special.floatClass).map snapshot.word }

/-! ## Values -/

theorem resolve_word (sound : snapshot.Sound) (holder : UInt32) {value : Value}
    (known : snapshot.Knows value) :
    snapshot.context.resolve holder (snapshot.word value) = .ok value := by
  cases value with
  | small n =>
    obtain ⟨odd, reads⟩ := Value.ofWord_toWord_small n
    rw [word, Image.Context.resolve, if_pos odd, reads]
  | object index =>
    have even : ¬ (snapshot.address index).toNat % 2 = 1 := by
      have := address_mod_four sound.aligned index
      omega
    have entered : snapshot.context.directory[snapshot.address index]? = some _ :=
      directory_address sound.bounded (List.getElem?_eq_getElem known)
    simp only [word, Image.Context.resolve, if_neg even, entered]
    rfl

/-- Different values are written as different words. -/
theorem word_inj (sound : snapshot.Sound) {first second : Value} (firstKnown : snapshot.Knows first)
    (secondKnown : snapshot.Knows second) (same : snapshot.word first = snapshot.word second) :
    first = second := by
  have firstResolves := resolve_word sound 0 firstKnown
  rw [same, resolve_word sound 0 secondKnown] at firstResolves
  exact (Except.ok.inj firstResolves).symm

theorem bodyWords_getElem? {body : SavedBody} {place : Nat} {value : Value}
    (found : body.values[place]? = some value) :
    (snapshot.bodyWords body)[place]? = some (snapshot.word value) := by
  have inside := (List.getElem?_eq_some_iff.mp found).1
  cases body with
  | pointers fields => simpa [bodyWords] using ⟨value, found, rfl⟩
  | words data => simp [SavedBody.values] at found
  | bytes data => simp [SavedBody.values] at found
  | method header literals bytecode =>
    have early : place < ((Value.small header :: literals).map snapshot.word).length := by
      simpa [SavedBody.values] using inside
    rw [bodyWords, List.getElem?_append_left early, List.getElem?_map]
    exact congrArg (Option.map snapshot.word) found

theorem knows_field? (sound : snapshot.Sound) {index place : Nat} {value : Value}
    (found : snapshot.field? index place = some value) : snapshot.Knows value := by
  obtain ⟨object, isObject, isField⟩ := Option.bind_eq_some_iff.mp found
  exact (sound.writes object (List.mem_of_getElem? isObject)).values value
    (List.mem_of_getElem? isField)

/-! ## Objects -/

variable {object : SavedObject} {species : Value}

/-- A numbered class stands in the body of the object with the compact classes. -/
theorem exists_of_compactClass? {number : Nat}
    (named : snapshot.compactClass? number = some species) :
    ∃ index classes, snapshot.field? snapshot.specials Special.compactClasses
        = some (.object index) ∧
      snapshot.objects[index]? = some classes ∧
        classes.body.values[number - 1]? = some species := by
  rw [compactClass?] at named
  cases field : snapshot.field? snapshot.specials Special.compactClasses with
  | none => simp [field] at named
  | some value =>
    cases value with
    | small n => simp [field] at named
    | object index =>
      rw [field] at named
      obtain ⟨classes, isObject, isField⟩ := Option.bind_eq_some_iff.mp named
      exact ⟨index, classes, rfl, isObject, isField⟩

theorem speciesWord?_recordHeader (writes : snapshot.Writes object)
    (named : snapshot.species? object.header = some species) :
    (snapshot.recordHeader object).speciesWord? snapshot.compactWords
      = some (snapshot.word species) := by
  have heads := writes.header
  unfold recordHeader
  cases kind : object.header with
  | withClass index =>
    rw [kind] at named
    cases named
    rfl
  | withSize index =>
    rw [kind] at named
    cases named
    rfl
  | compact number =>
    rw [kind] at named heads
    have parts := baseWord_parts writes.format writes.hash (show 3 < 4 by decide)
      (Nat.succ_lt_succ (Nat.lt_succ_of_le heads.2.2)) (Nat.lt_succ_of_le heads.2.1)
    simp only [RecordHeader.speciesWord?, parts.2.2.2.1, if_neg (Nat.ne_of_gt heads.1)]
    obtain ⟨index, classes, isCompact, isObject, isField⟩ := exists_of_compactClass? named
    rw [compactWords, isCompact]
    simp only [isObject, List.getElem?_toArray]
    exact bodyWords_getElem? isField

theorem floatClass_context (sound : snapshot.Sound) (known : snapshot.Knows species) :
    some (snapshot.word species) = snapshot.context.floatClass
      ↔ snapshot.field? snapshot.specials Special.floatClass = some species := by
  rw [context]
  constructor
  · intro same
    obtain ⟨floats, isFloats, sameWord⟩ := Option.map_eq_some_iff.mp same.symm
    rw [isFloats, word_inj sound (knows_field? sound isFloats) known sameWord]
  · intro isFloats
    rw [isFloats]
    rfl

theorem decodeBody_bodyWords (sound : snapshot.Sound) (writes : snapshot.Writes object)
    (known : snapshot.Knows species) (holder : UInt32) :
    snapshot.context.decodeBody holder (snapshot.word species) object.format
      (snapshot.bodyWords object.body).toArray = .ok (snapshot.loadedBody species object) := by
  have suits := writes.body
  have resolved : snapshot.context.resolveAll holder
      (object.body.values.map snapshot.word).toArray = .ok object.body.values.toArray :=
    Image.Context.resolveAll_of_resolve fun value member =>
      resolve_word sound holder (writes.values value member)
  unfold loadedBody
  cases body : object.body with
  | pointers fields =>
    rw [body] at suits resolved
    exact Image.Context.decodeBody_pointers suits resolved
  | words data =>
    rw [body] at suits
    rw [bodyWords, Image.Context.decodeBody_words suits]
    simp only [floatClass_context sound known]
  | bytes data =>
    rw [body] at suits
    obtain ⟨kind, whole⟩ := suits
    rw [bodyWords, Image.Context.decodeBody_bytes kind]
    exact congrArg (Except.ok ∘ Body.bytes)
      (snapshot.context.unpack_pack object.format data whole)
  | method header literals bytecode =>
    rw [body] at suits resolved
    obtain ⟨kind, announced, whole⟩ := suits
    -- The header is the first word, and says where the bytes begin.
    have first : (snapshot.bodyWords (.method header literals bytecode)).toArray[0]?
        = some (Value.small header).toWord := by
      simp [bodyWords, word]
    have split : Image.Context.literalCount
        (snapshot.bodyWords (.method header literals bytecode)).toArray
          = ((Value.small header :: literals).map snapshot.word).length := by
      rw [Image.Context.literalCount, first, Option.getD_some, MethodHeader.literalCount_toWord,
        ← announced]
      simp
    have front : (snapshot.bodyWords (.method header literals bytecode)).toArray.take
        ((Value.small header :: literals).map snapshot.word).length
          = ((Value.small header :: literals).map snapshot.word).toArray := by
      simp [bodyWords]
    have back : (snapshot.bodyWords (.method header literals bytecode)).toArray.drop
        ((Value.small header :: literals).map snapshot.word).length
          = (snapshot.order.pack bytecode).toArray := by
      apply Array.toList_inj.mp
      simp [bodyWords, List.take_of_length_le]
    rw [SavedBody.values, ← front] at resolved
    rw [Image.Context.decodeBody_method kind split resolved, back]
    exact congrArg (Except.ok ∘ Body.method _)
      (snapshot.context.unpack_pack object.format bytecode whole)

/-- The second pass finds the class and the body that every object was written
with. -/
theorem decode_entry (sound : snapshot.Sound) {index : Nat}
    (found : snapshot.objects[index]? = some object)
    (named : snapshot.species? object.header = some species) :
    snapshot.context.decode (snapshot.entry index object)
      = .ok (species, snapshot.loadedBody species object) := by
  have writes := sound.writes object (List.mem_of_getElem? found)
  have known : snapshot.Knows species := by
    obtain ⟨other, otherNamed, known⟩ := writes.species
    rw [Option.mem_def, named] at otherNamed
    cases otherNamed
    exact known
  simp only [Image.Context.decode, entry, record]
  rw [show snapshot.context.compactClasses = snapshot.compactWords from rfl,
    speciesWord?_recordHeader writes named]
  simp only [resolve_word sound _ known, bind, Except.bind, format_recordHeader writes,
    decodeBody_bodyWords sound writes known]
  rfl

end Snapshot

end Smalltalk
