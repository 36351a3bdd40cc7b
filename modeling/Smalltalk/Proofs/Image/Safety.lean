import Smalltalk.Proofs.Image.Careful

namespace Smalltalk

/-! Loading is safe whatever the bytes are. The careful reader comes to an end without a
fault of its own, and its result is that of the loader: a complete image, read from so many
bytes as its header says, or the reason why there is none. -/

namespace Careful

variable {α β : Type} {place : Nat} {source : ByteSource}

/-! ## The header -/

theorem byteOrder_yields :
    (byteOrder source).Yields 0 (ImageHeader.readOrder source) fun order => (order, 4) := by
  rw [Yields, byteOrder, ImageHeader.readOrder]
  have first := @word_yields 0 source .big
  rw [ByteSource.wordAt] at first
  cases read : source.word? .big 0 with
  | none =>
    rw [read] at first
    exact Yields.bindError first
  | some found =>
    rw [read] at first
    refine Yields.bindOk first ?_
    dsimp only
    split
    · exact .pure rfl
    · split
      · exact .pure rfl
      · exact .throw

theorem header_yields (order : ByteOrder) :
    (header source order).Yields 4 (ImageHeader.read source order) fun header =>
      (header, header.firstObject) := by
  have next (index : Nat) : (word source order).Yields (4 + 4 * index)
      (ImageHeader.readWord source order index) fun found => (found, 4 + 4 * (index + 1)) := by
    have here : 4 + 4 * index = 4 * (index + 1) := by omega
    have behind : 4 + 4 * (index + 1) = 4 * (index + 1) + 4 := by omega
    rw [ImageHeader.readWord, here, behind]
    exact word_yields
  refine (next 0).bind fun headerSize _ => (next 1).bind fun endOfMemory _ =>
    (next 2).bind fun oldBase _ => (next 3).bind fun specialObjects _ =>
    (next 4).bind fun lastHash _ => (next 5).bind fun windowSize _ =>
    (next 6).bind fun fullScreen _ => (next 7).bind fun extraMemory _ => ?_
  have skips (count : Nat) : (skip source count).Yields 36
      ((source.skipTo (36 + count)).mapError .unreadable) fun _ => ((), 36 + count) := rfl
  have first : 36 + (headerSize.toNat - ImageHeader.prefixSize)
      = max headerSize.toNat ImageHeader.prefixSize := by
    rw [ImageHeader.prefixSize]
    omega
  have reached := skips (headerSize.toNat - ImageHeader.prefixSize)
  rw [first] at reached
  dsimp only [ImageHeader.firstObject]
  cases stands : source.skipTo (max headerSize.toNat ImageHeader.prefixSize) with
  | error error =>
    rw [stands] at reached
    exact .bindError reached
  | ok found =>
    rw [stands] at reached
    exact reached.bindOk (.pure rfl)

/-! ## The second pass -/

section

variable {loaded : Array LoadedRecord} {oldBase : UInt32}

theorem find?_yields (address : UInt32) :
    (find? loaded (placesOf oldBase loaded) address).Yields place
      (.ok (Image.directory oldBase loaded)[address]?) fun found => (found, place) := by
  rcases directory_eq oldBase address loaded with ⟨inside, same⟩
  rw [find?, same]
  cases named : (placesOf oldBase loaded)[address]? with
  | none => exact .pure rfl
  | some index =>
    have here := Array.getElem?_eq_getElem (inside index named)
    rw [Option.bind_some, here]
    exact (element_yields here).bindOk (.pure rfl)

theorem essential_yields (address : Option UInt32) (object : EssentialObject) :
    (essential loaded (placesOf oldBase loaded) address object).Yields place
      (Image.essential (Image.directory oldBase loaded) address object)
      fun entry => (entry, place) := by
  cases address with
  | none => exact .throw
  | some address =>
    rw [essential, Image.essential, Option.bind_some]
    refine (find?_yields address).bindOk ?_
    dsimp only
    cases (Image.directory oldBase loaded)[address]? with
    | none => exact .throw
    | some entry => exact .pure rfl

variable {context : Image.Context}

theorem resolve_yields (knows : context.directory = Image.directory oldBase loaded)
    (holder word : UInt32) :
    (resolve loaded (placesOf oldBase loaded) holder word).Yields place
      (context.resolve holder word) fun value => (value, place) := by
  rw [resolve, Image.Context.resolve, knows]
  split
  · exact .pure rfl
  · refine (find?_yields word).bindOk ?_
    dsimp only
    cases (Image.directory oldBase loaded)[word]? with
    | none => exact .throw
    | some entry => exact .pure rfl

/-- What is done to each element in turn. -/
theorem mapM_yields {γ δ : Type} {run : γ → Careful δ} {expected : γ → Except ImageError δ}
    (each : ∀ found, (run found).Yields place (expected found) fun result => (result, place))
    (elements : Array γ) :
    (elements.mapM run).Yields place (elements.mapM expected) fun results => (results, place) := by
  have onList (elements : List γ) : (elements.mapM run).Yields place (elements.mapM expected)
      fun results => (results, place) := by
    induction elements with
    | nil => exact .pure rfl
    | cons first rest ih =>
      rw [List.mapM_cons, List.mapM_cons]
      exact (each first).bind fun _ _ => ih.bind fun _ _ => .pure rfl
  rw [← @Array.toArray_toList _ elements, List.mapM_toArray, List.mapM_toArray]
  rw [map_eq_pure_bind, map_eq_pure_bind]
  exact (onList elements.toList).bind fun _ _ => .pure rfl

/-- What is carried through all elements, as long as it stays what it has to be. -/
theorem foldlM_yields {γ σ : Type} {good : σ → Prop} {run : σ → γ → Careful σ}
    {expected : σ → γ → Except ImageError σ} {elements : List γ}
    (each : ∀ state, good state → ∀ element ∈ elements,
      (run state element).Yields place (expected state element) fun after => (after, place))
    (stays : ∀ state after element, good state → expected state element = .ok after → good after)
    {start : σ} (starts : good start) :
    (elements.foldlM run start).Yields place (elements.foldlM expected start)
      fun after => (after, place) := by
  induction elements generalizing start with
  | nil => exact .pure rfl
  | cons first rest ih =>
    rw [List.foldlM_cons, List.foldlM_cons]
    refine (each start starts first (List.mem_cons_self ..)).bind fun after known => ?_
    exact ih (fun state known element member =>
      each state known element (List.mem_cons_of_mem _ member)) (stays _ _ _ starts known)

theorem decodeBody_yields (knows : context.directory = Image.directory oldBase loaded)
    (holder species : UInt32) (format : Nat) (words : Array UInt32) :
    (decodeBody loaded (placesOf oldBase loaded) { context with directory := ∅ } holder species
      format words).Yields place (context.decodeBody holder species format words) fun body => (body, place) := by
  have all (words : Array UInt32) :
      (words.mapM (resolve loaded (placesOf oldBase loaded) holder)).Yields place
        (context.resolveAll holder words) fun values => (values, place) :=
    mapM_yields (fun word => resolve_yields knows holder word) words
  rw [decodeBody, Image.Context.decodeBody]
  split
  · exact (all words).bind fun _ _ => .pure rfl
  split
  · have front : words.take (min (Image.Context.literalCount words) words.size)
        = words.take (Image.Context.literalCount words) := by
      apply Array.toList_inj.mp
      simp
    have back : words.drop (min (Image.Context.literalCount words) words.size)
        = words.drop (Image.Context.literalCount words) := by
      rcases Nat.le_total (Image.Context.literalCount words) words.size with few | many
      · rw [Nat.min_eq_left few]
      · rw [Nat.min_eq_right many]
        apply Array.toList_inj.mp
        simp [Nat.sub_eq_zero_of_le many]
    have parts : (splitAt words (min (Image.Context.literalCount words) words.size)).Yields place
        (.ok (words.take (Image.Context.literalCount words),
          words.drop (Image.Context.literalCount words))) fun parts => (parts, place) := by
      rw [splitAt, if_pos (Nat.min_le_right ..), front, back]
      exact .pure rfl
    exact parts.bindOk ((all _).bind fun _ _ => .pure rfl)
  split
  · exact .pure rfl
  by_cases pair : words.size = 2
  · obtain ⟨high, low, listed⟩ := List.length_eq_two.mp (words.length_toList.trans pair)
    obtain rfl : words = #[high, low] := by rw [← @Array.toArray_toList _ words, listed]
    dsimp only
    by_cases isFloat : some species = context.floatClass
    · rw [if_pos ⟨isFloat, rfl⟩, if_pos isFloat]
      exact .pure rfl
    · rw [if_neg (fun both => isFloat both.1), if_neg isFloat]
      exact .pure rfl
  · rw [if_neg (fun both => pair both.2)]
    split
    · rename_i high low listed
      exact absurd (words.length_toList.symm.trans (congrArg List.length listed)) pair
    · exact .pure rfl

theorem install_yields (knows : context.directory = Image.directory oldBase loaded)
    {heap : Heap} {entry : LoadedRecord} {object : HeapObject}
    (here : heap.get? entry.value = some object) :
    (install loaded (placesOf oldBase loaded) { context with directory := ∅ } heap entry).Yields
      place (context.install heap entry) fun after => (after, place) := by
  rw [install, Image.Context.install, Image.Context.decode]
  dsimp only
  cases entry.record.header.speciesWord? context.compactClasses with
  | none => exact .throw
  | some word =>
    dsimp only
    rw [bind_assoc, here]
    refine (resolve_yields knows _ word).bind fun species _ => ?_
    dsimp only
    rw [bind_assoc]
    exact (decodeBody_yields knows _ _ _ _).bind fun body _ => .pure rfl

/-- Every record has an object that can be given its class and its body. -/
def Registered (loaded : Array LoadedRecord) (heap : Heap) : Prop :=
  ∀ entry ∈ loaded, ∃ object, heap.get? entry.value = some object

theorem Registered.install {heap after : Heap} {entry : LoadedRecord}
    (registered : Registered loaded heap) (installs : context.install heap entry = .ok after) :
    Registered loaded after := by
  rw [Image.Context.install] at installs
  rcases bind_eq_ok_iff.mp installs with ⟨found, -, made⟩
  cases made
  intro other member
  rcases registered other member with ⟨object, here⟩
  by_cases same : entry.value = other.value
  · rw [← same] at here ⊢
    exact ⟨_, (heap.get?_update_same ..).trans (congrArg (Option.map _) here)⟩
  · exact ⟨object, (heap.get?_update_other same _).trans here⟩

theorem installs_yields (knows : context.directory = Image.directory oldBase loaded) {heap : Heap}
    (registered : Registered loaded heap) :
    (loaded.foldlM (install loaded (placesOf oldBase loaded) { context with directory := ∅ })
      heap).Yields place (loaded.foldlM context.install heap) fun after => (after, place) := by
  rw [← Array.foldlM_toList, ← Array.foldlM_toList]
  refine foldlM_yields (fun heap registered entry member => ?_)
    (fun heap after entry registered installs => Registered.install registered installs) registered
  rcases registered entry (by simpa using member) with ⟨object, here⟩
  exact install_yields knows here

theorem registered_of_packed {records : List ImageRecord} {heap : Heap}
    (packed : heap.Packed (records.map Image.placeholder)) :
    Registered (Image.entriesFrom 0 0 records).toArray heap := by
  intro entry member
  rcases Image.mem_entriesFrom.mp (List.mem_toArray.mp member) with ⟨index, record, listed, rfl⟩
  refine ⟨Image.placeholder record, (packed.cell?_eq (0 + index)).trans ?_⟩
  rw [List.getElem?_map, Nat.zero_add, listed]
  rfl

end

/-! ## Both passes -/

/-- The careful reader loads what the loader loads, and it has then read as many bytes as the
header says. -/
theorem load_yields (source : ByteSource) (config : Config) :
    (load source config).Yields 0 (Image.load source config) fun image =>
      (image, image.header.firstObject + image.header.endOfMemory.toNat) := by
  rw [load, Image.load]
  refine byteOrder_yields.bind fun order _ => (header_yields order).bind fun header _ => ?_
  have packed := Heap.packed_ofConfig config header.lastHash
  have passed := @registerFrom_yields (Image.records source order header) header.endOfMemory 0
    header.oldBase _ #[] 0 [] rfl rfl (Nat.zero_le _) packed
  refine passed.bind fun found registers => ?_
  obtain ⟨loaded, heap⟩ := found
  rcases Image.tiled_of_registerFrom (Nat.zero_le _) packed registers with ⟨read, -, rfl, filled⟩
  rw [List.nil_append] at filled
  dsimp only
  rw [List.length_nil, Array.empty_append]
  refine (essential_yields _ _).bind fun specials _ => ?_
  refine (essential_yields _ _).bind fun compact _ => ?_
  exact (@installs_yields _ _ _
    { order
      oldBase := header.oldBase
      directory := Image.directory header.oldBase _
      compactClasses := compact.record.body
      floatClass := specials.record.body[Special.floatClass]? }
    rfl _ (registered_of_packed filled)).bind fun after _ => .pure rfl

end Careful

namespace Image

/-- A record with a value that is the address of no record cannot be loaded. -/
theorem load_error_of_dangling {source : ByteSource} {order : ByteOrder} {header : ImageHeader}
    {read : List ImageRecord} {entry : LoadedRecord} {word : UInt32}
    (ordered : ImageHeader.readOrder source = .ok order)
    (headed : ImageHeader.read source order = .ok header)
    (tiled : (records source order header).Tiled 0 read) (member : entry ∈ entriesFrom 0 0 read)
    (isValue : word ∈ entry.record.valueWords) (even : word.toNat % 2 = 0)
    (dangles : ∀ other ∈ entriesFrom 0 0 read, addressOf header.oldBase other ≠ word)
    (config : Config) : ∃ error, load source config = .error error := by
  cases loads : load source config with
  | error error => exact ⟨error, rfl⟩
  | ok image =>
    exfalso
    rcases holds_of_load loads with ⟨same, context, holds⟩
    obtain ⟨rfl, rfl, rfl⟩ := holds.describes ordered headed tiled
    rcases holds.address_of_even member isValue even with ⟨other, otherMember, address⟩
    exact dangles other otherMember address

/-- Loading is safe. For every source of bytes the careful reader comes to the end of what the
loader does without a place that is not there and without a negative difference. If an image
is loaded, exactly the bytes up to the end of its objects have been read; its records take
all the space of the objects without a gap and without an overlap, the object in each
place of the table is made from the record in that place, every reference is to a small integer
or to one of these objects, the special objects are one of them, and all of them are old. And if
a word that should be a value is even and not the address of a record, no image is loaded. -/
theorem load_safe (source : ByteSource) (config : Config) :
    Careful.load source config 0 = some ((load source config).map fun image =>
      (image, max image.header.headerSize.toNat 36 + image.header.endOfMemory.toNat)) ∧
    (∀ image, load source config = .ok image → ∃ read context,
      image.Holds source read context ∧
      (∀ byte < image.header.endOfMemory.toNat,
        ∃! entry, entry ∈ entriesFrom 0 0 read ∧ entry.Covers byte) ∧
      (∀ entry ∈ entriesFrom 0 0 read, ∀ byte, entry.Covers byte →
        byte < image.header.endOfMemory.toNat) ∧
      ∀ index object, image.heap.cell? index = some object → ∀ value ∈ object.references,
        (∃ n, value = .small n) ∨ ∃ place < read.length, value = .object place) ∧
    ∀ order header read, ImageHeader.readOrder source = .ok order →
      ImageHeader.read source order = .ok header → (records source order header).Tiled 0 read →
      ∀ entry ∈ entriesFrom 0 0 read, ∀ word ∈ entry.record.valueWords, word.toNat % 2 = 0 →
        (∀ other ∈ entriesFrom 0 0 read, addressOf header.oldBase other ≠ word) →
        ∃ error, load source config = .error error := by
  refine ⟨Careful.load_yields source config, ?_, ?_⟩
  · intro image loads
    rcases holds_of_load loads with ⟨read, context, holds⟩
    refine ⟨read, context, holds, ?_, ?_, ?_⟩
    · exact fun byte before => existsUnique_covers holds.tiled (Nat.zero_le _) before
    · exact fun entry member byte covers => before_of_covers holds.tiled member covers
    · exact fun index object found value refers => holds.references found refers
  · intro order header read ordered headed tiled entry member word isValue even dangles
    exact load_error_of_dangling ordered headed tiled member isValue even dangles config

end Image

end Smalltalk
