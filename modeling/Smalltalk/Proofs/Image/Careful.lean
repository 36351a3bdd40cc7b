import Smalltalk.Proofs.Image.Loaded

namespace Smalltalk

/-! An image comes from whoever wrote it. Here it is read with nothing taken on trust: from
front to back, with positions that are words of 32 bits and with records that are named by
their places in an array. Where a difference would be negative or a place is not there, the
reader itself would be at fault. It never is, and what it reads is what the loader loads. -/

/-- A computation that reads on from a place. It may turn down what it reads, and it has no
result at all if it is at fault itself. -/
abbrev Careful := StateT Nat (ExceptT ImageError Option)

namespace Careful

variable {α β : Type}

/-! ## What may be at fault -/

/-- There is nothing to go on with. -/
def fault : Careful α := fun _ => (none : Option (Except ImageError (α × Nat)))

/-- A difference, which must not be negative. -/
def subtract (a b : UInt32) : Careful UInt32 := if b ≤ a then pure (a - b) else fault

/-- An element, which must be there. -/
def element (elements : Array α) (index : Nat) : Careful α :=
  match elements[index]? with
  | some found => pure found
  | none => fault

/-- The elements before a place and those from there on; the place must not lie behind the
last one. -/
def splitAt (elements : Array α) (place : Nat) : Careful (Array α × Array α) :=
  if place ≤ elements.size then pure (elements.take place, elements.drop place) else fault

/-! ## Sums that are looked at first -/

/-- A sum, unless it takes more than 32 bits. -/
def sum? (a b : UInt32) : Option UInt32 :=
  if a.toNat + b.toNat < 4294967296 then some (a + b) else none

/-- A product, unless it takes more than 32 bits. -/
def product? (a b : UInt32) : Option UInt32 :=
  if a.toNat * b.toNat < 4294967296 then some (a * b) else none

/-- Go to a place that has to lie within a limit. -/
def within (limit : UInt32) (place : Option UInt32) (error : ImageError) : Careful UInt32 :=
  match place.filter (· ≤ limit) with
  | some place => pure place
  | none => throw error

/-! ## Reading -/

section

variable (source : ByteSource) (order : ByteOrder)

def word : Careful UInt32 := fun place =>
  some <| ((source.wordAt order place).mapError .unreadable).map (·, place + 4)

/-- Leave out bytes. -/
def skip (count : Nat) : Careful Unit := fun place =>
  some <| ((source.skipTo (place + count)).mapError .unreadable).map (·, place + count)

/-- Read words one after the other. -/
def words : (count : Nat) → (read : Array UInt32) → Careful (Array UInt32)
  | 0, read => pure read
  | count + 1, read => do
    words count (read.push (← word source order))

/-- The order of the bytes, from the first four of them. -/
def byteOrder : Careful ByteOrder := do
  let found ← word source .big
  if found = ImageHeader.mark then return .big
  if source.word? .little 0 = some ImageHeader.mark then return .little
  throw (.badMagic found)

def header : Careful ImageHeader := do
  let header : ImageHeader :=
    { headerSize := ← word source order
      endOfMemory := ← word source order
      oldBase := ← word source order
      specialObjects := ← word source order
      lastHash := ← word source order
      windowSize := ← word source order
      fullScreen := ← word source order
      extraMemory := ← word source order }
  skip source (header.headerSize.toNat - ImageHeader.prefixSize)
  return header

/-- The header of a record, and the position behind it. -/
def recordHeader (limit position : UInt32) : Careful (RecordHeader × UInt32) := do
  let past (bytes : UInt32) : Careful UInt32 :=
    within limit (sum? position bytes) (.objectOverrun position.toNat 0)
  let first ← word source order
  match first.toNat % 4 with
  | 0 =>
    let species ← word source order
    let base ← word source order
    return (.withSize first species base, ← past 12)
  | 1 =>
    let base ← word source order
    let behind ← past 8
    return (.withClass (← subtract first 1) base, behind)
  | 2 => throw (.freeBlock position.toNat)
  | _ => return (.short first, ← past 4)

/-- A record, the position of its base word and the position behind it. -/
def record (limit position : UInt32) : Careful (ImageRecord × UInt32 × UInt32) := do
  let (header, behind) ← recordHeader source order limit position
  let basePosition ← subtract behind 4
  let count := UInt32.ofNat header.bodyCount
  let stop ← within limit ((product? count 4).bind (sum? behind))
    (.objectOverrun basePosition.toNat header.bodyCount)
  let body ← words source order header.bodyCount #[]
  return ({ header, body }, basePosition, stop)

/-- Register an object. Cells that were given up have to be there. -/
def register (heap : Heap) (object : HeapObject) : Careful (Value × Heap) :=
  if ∀ slot ∈ heap.free, slot < heap.cells.size then
    match heap.registerLoaded object with
    | .ok registered => pure registered
    | .error error => throw (.memory error)
  else fault

/-- Read the records from a position on. A record that does not bring the reader further
would be its fault. -/
def registerFrom (limit oldBase position : UInt32) (heap : Heap) (loaded : Array LoadedRecord)
    (places : Std.HashMap UInt32 Nat) :
    Careful (Array LoadedRecord × Std.HashMap UInt32 Nat × Heap) := do
  if position < limit then
    let (record, basePosition, stop) ← record source order limit position
    let (value, heap) ← register heap (Image.placeholder record)
    if position < stop then
      registerFrom limit oldBase stop heap
        (loaded.push { record, offset := position.toNat, value })
        (places.insert (oldBase + basePosition) loaded.size)
    else fault
  else return (loaded, places, heap)
termination_by limit.toNat - position.toNat
decreasing_by
  rename_i more further
  have := UInt32.lt_iff_toNat_lt.mp more
  have := UInt32.lt_iff_toNat_lt.mp further
  omega

end

/-! ## The second pass -/

section

variable (loaded : Array LoadedRecord) (places : Std.HashMap UInt32 Nat)

/-- The record at an old address, if there is one. -/
def find? (address : UInt32) : Careful (Option LoadedRecord) :=
  match places[address]? with
  | none => pure none
  | some place => return some (← element loaded place)

def essential (address : Option UInt32) (object : EssentialObject) : Careful LoadedRecord := do
  match address with
  | none => throw (.missingObject object)
  | some address =>
    match ← find? loaded places address with
    | some entry => return entry
    | none => throw (.missingObject object)

def resolve (holder word : UInt32) : Careful Value := do
  if word.toNat % 2 = 1 then return .ofWord word
  match ← find? loaded places word with
  | some entry => return entry.value
  | none => throw (.unknownReference word holder)

def decodeBody (context : Image.Context) (holder species : UInt32) (format : Nat)
    (words : Array UInt32) : Careful Body := do
  if Format.isPointers format then
    return .pointers (← words.mapM (resolve loaded places holder))
  else if Format.isMethod format then
    let (front, back) ← splitAt words (min (Image.Context.literalCount words) words.size)
    return .method (← front.mapM (resolve loaded places holder)) (context.unpack format back)
  else if Format.isBytes format then
    return .bytes (context.unpack format words)
  else if some species = context.floatClass ∧ words.size = 2 then
    return .float (Image.Context.joinWords (← element words 0) (← element words 1))
  else
    return .words words

/-- Give the object of a record its class and its body. The object must be there. -/
def install (context : Image.Context) (heap : Heap) (entry : LoadedRecord) : Careful Heap := do
  let record := entry.record
  let holder := record.address context.oldBase entry.offset
  match record.header.speciesWord? context.compactClasses with
  | none => throw (.missingObject .compactClass)
  | some word =>
    let species ← resolve loaded places holder word
    let body ← decodeBody loaded places context holder word record.header.format record.body
    match heap.get? entry.value with
    | none => throw (.memory (.invalidReference entry.value))
    | some _ => return heap.update entry.value fun object => { object with species, body }

end

/-- Load an image. -/
def load (source : ByteSource) (config : Config) : Careful Image := do
  let order ← byteOrder source
  let header ← header source order
  let heap := (Heap.ofConfig config).seedHash header.lastHash
  let (loaded, places, heap) ←
    registerFrom source order header.endOfMemory header.oldBase 0 heap #[] ∅
  let specials ← essential loaded places (some header.specialObjects) .specialObjects
  let specialWords := specials.record.body
  let compactClasses ←
    essential loaded places specialWords[Special.compactClasses]? .compactClasses
  let context : Image.Context :=
    { order
      oldBase := header.oldBase
      directory := ∅
      compactClasses := compactClasses.record.body
      floatClass := specialWords[Special.floatClass]? }
  let heap ← loaded.foldlM (install loaded places context) heap
  return { header, order, heap := heap.tenure, specialObjects := specials.value }

end Careful

/-! ## Words in a row -/

namespace ByteSource

variable {source : ByteSource} {order : ByteOrder} {place : Nat}

theorem wordsAt_succ (count : Nat) :
    source.wordsAt order place (count + 1) = do
      let first ← source.wordAt order place
      let rest ← source.wordsAt order (place + 4) count
      return #[first] ++ rest := by
  cases read : source.word? order place with
  | none =>
    have short : ¬ place + 4 ≤ source.bytes.size := by
      rw [← @ByteSource.isSome_word? source order, read]
      exact Bool.false_ne_true
    rw [wordsAt, if_neg (by omega), wordAt, read]
    rfl
  | some first =>
    rw [wordAt, read, wordsAt, wordsAt]
    by_cases whole : place + 4 * (count + 1) ≤ source.bytes.size
    · rw [if_pos whole]
      simp only [bind, Except.bind]
      rw [if_pos (by omega)]
      refine congrArg Except.ok (Array.ext (by simp; omega) fun index _ _ => ?_)
      cases index with
      | zero => simp [read]
      | succ index =>
        have next : place + 4 * (index + 1) = place + 4 + 4 * index := by omega
        simp [Array.getElem_append_right, next]
    · rw [if_neg whole]
      simp only [bind, Except.bind]
      rw [if_neg (by omega)]

end ByteSource

namespace Careful

variable {α β : Type}

/-! ## The reader is never at fault -/

/-- Reading on from a place has the result that is expected, as it is seen by the reader:
with the place where that ends. -/
def Yields {γ : Type} (run : Careful α) (place : Nat) (expected : Except ImageError γ)
    (view : γ → α × Nat) : Prop :=
  run place = some (expected.map view)

namespace Yields

variable {γ δ : Type} {run : Careful α} {next : α → Careful β} {place : Nat}
  {expected : Except ImageError γ} {rest : γ → Except ImageError δ} {seen : γ → α × Nat}
  {view : δ → β × Nat}

theorem pure {result : γ} {seen : γ → α × Nat} {found : α} (same : seen result = (found, place)) :
    Yields (Pure.pure found) place (.ok result) seen :=
  congrArg (fun outcome => some (Except.ok outcome)) same.symm

theorem throw {error : ImageError} {seen : γ → α × Nat} :
    Yields (MonadExcept.throw error : Careful α) place (.error error) seen := rfl

/-- What is expected may be said in other words, as long as it looks the same. -/
theorem map {seen : γ → α × Nat} {view : δ → α × Nat} (yields : Yields run place expected seen)
    {change : γ → δ} (same : ∀ result, expected = .ok result → view (change result) = seen result) :
    Yields run place (expected.map change) view := by
  rw [Yields, yields]
  cases expected with
  | error error => rfl
  | ok result => exact congrArg (fun outcome => some (Except.ok outcome)) (same result rfl).symm

theorem bind (first : Yields run place expected seen)
    (second : ∀ result, expected = .ok result →
      Yields (next (seen result).1) (seen result).2 (rest result) view) :
    Yields (run >>= next) place (expected >>= rest) view := by
  have unfolded : (run >>= next) place = Option.bind (run place) fun
      | .ok (result, after) => next result after
      | .error error => some (.error error) := by
    show Option.bind _ _ = _
    congr 1
    funext outcome
    rcases outcome with error | ⟨result, after⟩ <;> rfl
  rw [Yields, unfolded, first]
  cases expected with
  | error error => rfl
  | ok result => exact second result rfl

/-- The first part is known to succeed. -/
theorem bindOk {result : γ} {expected : Except ImageError δ}
    (first : Yields run place (.ok result) seen)
    (second : Yields (next (seen result).1) (seen result).2 expected view) :
    Yields (run >>= next) place expected view := by
  have known : Yields (run >>= next) place (Except.ok result >>= fun _ => expected) view :=
    first.bind fun found same => Except.ok.inj same ▸ second
  exact known

/-- The first part is known to turn down what it reads. -/
theorem bindError {error : ImageError} (first : run place = some (.error error)) :
    Yields (run >>= next) place (.error error) view := by
  have stopped : Yields run place (.error error : Except ImageError (α × Nat)) id := first
  have none : Yields (run >>= next) place
      ((.error error : Except ImageError (α × Nat)) >>= fun _ => .error error) view :=
    stopped.bind nofun
  exact none

/-- What was read is put together with what is known already. -/
theorem bindPure {view : γ → β × Nat} {make : α → β} (first : Yields run place expected seen)
    (same : ∀ result, expected = .ok result → view result = (make (seen result).1, (seen result).2)) :
    Yields (run >>= fun found => Pure.pure (make found)) place expected view := by
  have plain : expected >>= Except.ok = expected := by cases expected <;> rfl
  rw [← plain]
  exact first.bind fun result known => .pure (same result known)

end Yields

variable {place : Nat}

theorem subtract_yields {a b : UInt32} (enough : b ≤ a) :
    (subtract a b).Yields place (.ok (a - b)) fun difference => (difference, place) := by
  rw [subtract, if_pos enough]
  exact .pure rfl

theorem element_yields {elements : Array α} {index : Nat} {found : α}
    (here : elements[index]? = some found) :
    (element elements index).Yields place (.ok found) fun found => (found, place) := by
  rw [element, here]
  exact .pure rfl

/-! ## Counting -/

/-- The position that a number stands for, if 32 bits are enough for it. -/
def position? (n : Nat) : Option UInt32 :=
  if n < 4294967296 then some (UInt32.ofNat n) else none

theorem toNat_ofNat {n : Nat} (small : n < 4294967296) : (UInt32.ofNat n).toNat = n := by
  rw [UInt32.toNat_ofNat', Nat.mod_eq_of_lt small]

theorem sum?_eq (a b : UInt32) : sum? a b = position? (a.toNat + b.toNat) := by
  rw [sum?, position?]
  split <;> rfl

/-- What is multiplied and then added is small enough if the result is. -/
theorem product?_bind_sum? (a b c : UInt32) :
    (product? a b).bind (sum? c) = position? (c.toNat + a.toNat * b.toNat) := by
  rw [product?]
  by_cases small : a.toNat * b.toNat < 4294967296
  · have exact : (a * b).toNat = a.toNat * b.toNat := by
      rw [UInt32.toNat_mul, Nat.mod_eq_of_lt small]
    rw [if_pos small, Option.bind_some, sum?_eq, exact]
  · rw [if_neg small, position?, if_neg (by omega)]
    rfl

theorem within_ok {n : Nat} {limit : UInt32} {error : ImageError} (inside : n ≤ limit.toNat) :
    (within limit (position? n) error).Yields place (.ok (UInt32.ofNat n))
      fun position => (position, place) := by
  have bounded := limit.toNat_lt
  have small : n < 4294967296 := by omega
  have below : UInt32.ofNat n ≤ limit := by rwa [UInt32.le_iff_toNat_le, toNat_ofNat small]
  rw [within, position?, if_pos small, Option.filter_some, decide_eq_true below]
  exact .pure rfl

theorem within_error {n : Nat} {limit : UInt32} {error : ImageError} (beyond : limit.toNat < n) :
    within limit (position? n) error place = some (.error error) := by
  rw [within, position?]
  by_cases small : n < 4294967296
  · have above : ¬ UInt32.ofNat n ≤ limit := by
      rw [UInt32.le_iff_toNat_le, toNat_ofNat small]
      omega
    rw [if_pos small, Option.filter_some, decide_eq_false above]
    rfl
  · rw [if_neg small]
    rfl

/-! ## Reading -/

section

variable {source : ByteSource} {order : ByteOrder}

theorem word_yields :
    (word source order).Yields place ((source.wordAt order place).mapError .unreadable)
      fun found => (found, place + 4) := rfl

theorem words_yields (count : Nat) (read : Array UInt32) (reach : place ≤ source.bytes.size) :
    (words source order count read).Yields place
      ((source.wordsAt order place count).mapError .unreadable)
      fun found => (read ++ found, place + 4 * count) := by
  induction count generalizing place read with
  | zero =>
    rw [ByteSource.wordsAt, if_pos (by omega)]
    exact .pure rfl
  | succ count induction =>
    have split : (source.wordsAt order place (count + 1)).mapError ImageError.unreadable
        = (source.wordAt order place).mapError .unreadable >>= fun first =>
          ((source.wordsAt order (place + 4) count).mapError .unreadable).map (#[first] ++ ·) := by
      rw [ByteSource.wordsAt_succ]
      cases source.wordAt order place with
      | error error => rfl
      | ok first => cases source.wordsAt order (place + 4) count <;> rfl
    rw [split]
    refine word_yields.bind fun first known => ?_
    refine (induction (read.push first) (ByteSource.size_of_wordAt known)).map fun rest _ => ?_
    refine Prod.ext ?_ (by simp only; omega)
    show read ++ (#[first] ++ rest) = read.push first ++ rest
    rw [← Array.append_assoc, Array.push_eq_append]

end

/-! ## Records -/

section

variable {space : RecordSpace} {limit position : UInt32}

theorem recordHeader_yields (limited : limit.toNat = space.size) :
    (recordHeader space.source space.order limit position).Yields (space.start + position.toNat)
      (space.readHeader position.toNat) fun header =>
        ((header, UInt32.ofNat (position.toNat + 4 * header.wordCount)),
          space.start + position.toNat + 4 * header.wordCount) := by
  have past (place : Nat) (header : RecordHeader) (bytes : UInt32)
      (long : bytes.toNat = 4 * header.wordCount) :
      (within limit (sum? position bytes) (.objectOverrun position.toNat 0)).Yields place
        (space.checkHeader position.toNat header) fun header =>
          (UInt32.ofNat (position.toNat + 4 * header.wordCount), place) := by
    rw [sum?_eq, long, RecordSpace.checkHeader, ← limited]
    split
    · rename_i inside
      exact within_ok inside
    · rename_i beyond
      exact within_error (Nat.not_le.mp beyond)
  have next (bytes : Nat) : (word space.source space.order).Yields (space.start + position.toNat + bytes)
      (space.wordAt (position.toNat + bytes)) fun found =>
        (found, space.start + position.toNat + bytes + 4) := by
    rw [RecordSpace.wordAt, ← Nat.add_assoc]
    exact word_yields
  refine (next 0).bind fun first _ => ?_
  have kinds : first.toNat % 4 = 0 ∨ first.toNat % 4 = 1 ∨ first.toNat % 4 = 2 ∨
    first.toNat % 4 = 3 := by omega
  rcases kinds with kind | kind | kind | kind <;> simp only [kind]
  · refine Yields.bind (next 4) fun species _ => Yields.bind (next 8) fun base _ => ?_
    exact (past _ (.withSize first species base) 12 rfl).bindPure fun header checked => by
      rw [RecordSpace.eq_of_checkHeader checked]
      rfl
  · refine Yields.bind (next 4) fun base _ => ?_
    have enough : (1 : UInt32) ≤ first := by
      rw [UInt32.le_iff_toNat_le, show (1 : UInt32).toNat = 1 from rfl]
      omega
    have plain (checked : Except ImageError RecordHeader) : checked >>= Except.ok = checked := by
      cases checked <;> rfl
    rw [← plain (space.checkHeader _ _)]
    refine (past _ (.withClass (first - 1) base) 8 rfl).bind fun header checked => ?_
    rw [RecordSpace.eq_of_checkHeader checked]
    exact (subtract_yields enough).bindOk (.pure rfl)
  · exact .throw
  · exact (past _ (.short first) 4 rfl).bindPure fun header checked => by
      rw [RecordSpace.eq_of_checkHeader checked]
      rfl

theorem bodyCount_lt (header : RecordHeader) : header.bodyCount < 1073741824 := by
  cases header with
  | short base => simp only [RecordHeader.bodyCount]; omega
  | withClass species base => simp only [RecordHeader.bodyCount]; omega
  | withSize size species base =>
    have bounded := size.toNat_lt
    simp only [RecordHeader.bodyCount]
    omega

/-- A record is read as the loader reads it, with the positions of its base word and of
what comes after it. -/
theorem record_yields (limited : limit.toNat = space.size) :
    (record space.source space.order limit position).Yields (space.start + position.toNat)
      (space.readRecord position.toNat) fun record =>
        ((record, UInt32.ofNat (position.toNat + 4 * (record.header.wordCount - 1)),
          UInt32.ofNat (position.toNat + record.size)),
          space.start + position.toNat + record.size) := by
  rw [RecordSpace.readRecord]
  refine (recordHeader_yields limited).bind fun header headed => ?_
  rcases RecordSpace.inside_of_readHeader headed with ⟨inside, whole⟩
  have bounded := limit.toNat_lt
  have words := header.wordCount_pos
  have few := bodyCount_lt header
  have behind : (UInt32.ofNat (position.toNat + 4 * header.wordCount)).toNat
      = position.toNat + 4 * header.wordCount := toNat_ofNat (by omega)
  have four : (4 : UInt32) ≤ UInt32.ofNat (position.toNat + 4 * header.wordCount) := by
    rw [UInt32.le_iff_toNat_le, behind, show (4 : UInt32).toNat = 4 from rfl]
    omega
  have base : UInt32.ofNat (position.toNat + 4 * header.wordCount) - 4
      = UInt32.ofNat (position.toNat + 4 * (header.wordCount - 1)) := by
    apply UInt32.toNat_inj.mp
    rw [UInt32.toNat_sub_of_le _ _ four, behind, show (4 : UInt32).toNat = 4 from rfl,
      toNat_ofNat (by omega)]
    omega
  dsimp only
  refine (subtract_yields four).bindOk ?_
  dsimp only
  rw [product?_bind_sum?, behind, toNat_ofNat (by omega : header.bodyCount < 4294967296), base,
    toNat_ofNat (by omega), show (4 : UInt32).toNat = 4 from rfl]
  by_cases tooLong : space.size < position.toNat + 4 * header.wordCount + 4 * header.bodyCount
  · have beyond : ¬ position.toNat + 4 * header.wordCount + header.bodyCount * 4 ≤ limit.toNat := by
      omega
    have error : position.toNat + 4 * (header.wordCount - 1)
        = position.toNat + 4 * header.wordCount - 4 := by omega
    rw [if_pos tooLong, error]
    exact .bindError (within_error (Nat.not_le.mp beyond))
  · have within : position.toNat + 4 * header.wordCount + header.bodyCount * 4 ≤ limit.toNat := by
      omega
    rw [if_neg tooLong]
    refine (within_ok within).bindOk ?_
    dsimp only
    rw [← Nat.add_assoc space.start]
    refine (words_yields header.bodyCount #[] whole).bind fun body read => .pure ?_
    have counted : body.size = header.bodyCount := ByteSource.size_of_wordsAt read
    dsimp only
    rw [Array.empty_append, ImageRecord.size, counted, Nat.mul_add, Nat.mul_comm _ 4]
    simp only [Nat.add_assoc]

end

/-! ## The first pass -/

/-- The places of records by their old addresses. -/
def placesOf (oldBase : UInt32) (loaded : Array LoadedRecord) : Std.HashMap UInt32 Nat :=
  loaded.zipIdx.foldl (fun places (entry, place) =>
    places.insert (Image.addressOf oldBase entry) place) ∅

theorem placesOf_push (oldBase : UInt32) (loaded : Array LoadedRecord) (entry : LoadedRecord) :
    placesOf oldBase (loaded.push entry)
      = (placesOf oldBase loaded).insert (Image.addressOf oldBase entry) loaded.size := by
  have numbered : (loaded.push entry).zipIdx = loaded.zipIdx.push (entry, loaded.size) := by
    rw [← Array.append_singleton, Array.zipIdx_append, ← Array.append_singleton]
    simp
  rw [placesOf, numbered, Array.foldl_push]
  rfl

/-- The directory of an image holds the records at their places. -/
theorem directory_eq (oldBase address : UInt32) (loaded : Array LoadedRecord) :
    (∀ place ∈ (placesOf oldBase loaded)[address]?, place < loaded.size) ∧
      (Image.directory oldBase loaded)[address]?
        = (placesOf oldBase loaded)[address]?.bind (loaded[·]?) := by
  induction size : loaded.size generalizing loaded with
  | zero =>
    obtain rfl := Array.eq_empty_of_size_eq_zero size
    have none : (placesOf oldBase #[])[address]? = none := Std.HashMap.getElem?_empty
    rw [none]
    exact ⟨nofun, Std.HashMap.getElem?_empty⟩
  | succ count ih =>
    obtain ⟨front, last, rfl⟩ : ∃ (front : Array LoadedRecord) (last : LoadedRecord),
        loaded = front.push last := Array.eq_push_of_size_ne_zero (by omega)
    rw [Array.size_push] at size
    rcases ih front (by omega) with ⟨inside, same⟩
    have entered : Image.directory oldBase (front.push last)
        = (Image.directory oldBase front).insert (Image.addressOf oldBase last) last := by
      rw [Image.directory, Array.foldl_push]
      rfl
    rw [entered, placesOf_push, Std.HashMap.getElem?_insert, Std.HashMap.getElem?_insert]
    split
    · refine ⟨?_, by simp⟩
      intro place last
      cases last
      omega
    · refine ⟨fun place named => Nat.lt_succ_of_lt (inside place named), ?_⟩
      rw [same]
      cases named : (placesOf oldBase front)[address]? with
      | none => rfl
      | some place =>
        have := inside place named
        rw [Option.bind_some, Option.bind_some, Array.getElem?_push, if_neg (by omega)]

theorem register_yields {heap : Heap} {objects : List HeapObject} (packed : heap.Packed objects)
    (object : HeapObject) :
    (register heap object).Yields place ((heap.registerLoaded object).mapError .memory)
      fun registered => (registered, place) := by
  rw [register, packed.free, if_pos (fun _ member => absurd member List.not_mem_nil)]
  cases heap.registerLoaded object with
  | ok registered => exact .pure rfl
  | error error => exact .throw

/-- The records are read as the first pass of the loader reads them, up to the end of the
space. -/
theorem registerFrom_yields {space : RecordSpace} {limit position oldBase : UInt32} {heap : Heap}
    {loaded : Array LoadedRecord} {offset : Nat} {objects : List HeapObject}
    (limited : limit.toNat = space.size) (here : position.toNat = offset)
    (inside : offset ≤ space.size) (packed : heap.Packed objects) :
    (registerFrom space.source space.order limit oldBase position heap loaded
      (placesOf oldBase loaded)).Yields (space.start + offset)
      (Image.registerFrom space offset heap loaded) fun found =>
        ((found.1, placesOf oldBase found.1, found.2), space.start + space.size) := by
  have bounded := limit.toNat_lt
  have before {position : UInt32} : position < limit ↔ ¬ space.size ≤ position.toNat := by
    rw [UInt32.lt_iff_toNat_lt, limited, Nat.not_le]
  fun_induction Image.registerFrom space offset heap loaded generalizing position objects with
  | case1 offset heap loaded ended =>
    subst here
    rw [registerFrom, if_neg (fun more => before.mp more ended), Nat.le_antisymm inside ended]
    exact .pure rfl
  | case2 offset heap loaded more error failed =>
    subst here
    have reads := @record_yields space limit position limited
    rw [failed] at reads
    rw [registerFrom, if_pos (before.mpr more)]
    exact .bindError reads
  | case3 offset heap loaded more record read error failed =>
    subst here
    have reads := @record_yields space limit position limited
    rw [read] at reads
    have registers := @register_yields (space.start + position.toNat + record.size) heap objects
      packed (Image.placeholder record)
    rw [failed] at registers
    rw [registerFrom, if_pos (before.mpr more)]
    exact reads.bindOk (.bindError registers)
  | case4 offset heap loaded more record read value next registered ih =>
    subst here
    have reads := @record_yields space limit position limited
    rw [read] at reads
    have registers := @register_yields (space.start + position.toNat + record.size) heap objects
      packed (Image.placeholder record)
    rw [registered] at registers
    rw [registerFrom, if_pos (before.mpr more)]
    refine reads.bindOk (registers.bindOk ?_)
    -- The reader has come further, but not too far.
    have behind := RecordSpace.inside_of_readRecord read
    have long := record.size_pos
    have stop : (UInt32.ofNat (position.toNat + record.size)).toNat
        = position.toNat + record.size := toNat_ofNat (by omega)
    have further : position < UInt32.ofNat (position.toNat + record.size) := by
      rw [UInt32.lt_iff_toNat_lt, stop]
      omega
    dsimp only
    rw [if_pos further]
    have rest := ih stop behind (packed.of_registerLoaded registered).2
    rw [placesOf_push, ← Nat.add_assoc] at rest
    exact rest

end Careful

end Smalltalk
