import Smalltalk.Proofs.Heap.Pressure
import Smalltalk.Proofs.Indexed.Storing

namespace Smalltalk

/-! The shape of a new instance is decided when it is made, from the format of its class, and
again whenever it is asked for an element, from the format and from what its body has come to be.
For every indexable format the two agree: a new instance has as many elements as were asked for,
and none of them has anything in it yet. -/

/-- A small number that is not negative is the value of that number. -/
theorem Value.ofInt_of_nat? {value : Value} {n : Nat} (number : value.nat? = some n) :
    Value.ofInt n = value := by
  cases value with
  | object slot => cases number
  | small m =>
    rw [Value.nat?] at number
    split at number
    · next positive =>
      have same : (n : Int) = m.val := by
        cases number
        exact Int.toNat_of_nonneg positive
      rw [Value.ofInt, same, SmallInt.ofInt?_val]
      rfl
    · cases number

/-- What an element is that nothing was stored in, and what is answered for it. -/
inductive IndexedKind.Blank (nil : Value) : IndexedKind → Datum → Value → Prop
  | pointers : Blank nil .pointers (.value nil) nil
  | words : Blank nil .words (.word 0) .zero
  | bytes : Blank nil .bytes (.byte 0) .zero

namespace ClassFormat

variable {format : ClassFormat} {species nil : Value} {size : Nat}

/-- What is answered for an element of a new instance. -/
def blank (format : ClassFormat) (nil : Value) : Value :=
  if Format.isPointers format.instanceFormat then nil else .zero

/-- The fields of a new instance. -/
def freshFields (format : ClassFormat) (size : Nat) (nil : Value) : Array Value :=
  if Format.isPointers format.instanceFormat then Array.replicate (format.fieldCount + size) nil
  else #[]

/-- The unused bytes of the last word are counted in the format. -/
theorem withPadding_bytes (size : Nat) :
    Format.withPadding Format.bytes size = Format.bytes + (4 - size % 4) % 4 := by
  have padded : ∀ rest < 4, Format.bytes ||| ((4 - rest) &&& 3) = Format.bytes + (4 - rest) % 4 := by
    decide
  exact padded _ (Nat.mod_lt _ (by decide))

/-- The new instances of a class, by the kind of its format. -/
theorem instantiate_cases (plain : format.instanceFormat < Format.method) :
    (Format.isPointers format.instanceFormat = true ∧
      format.instantiate species size nil =
        { species
          format := format.instanceFormat
          body := .pointers (Array.replicate (format.fieldCount + size) nil) }) ∨
    (Format.isPointers format.instanceFormat = false ∧
      Format.isBytes format.instanceFormat = false ∧
      format.instantiate species size nil =
        { species, format := Format.words, body := .words (Array.replicate size 0) }) ∨
    (Format.isPointers format.instanceFormat = false ∧
      Format.isBytes format.instanceFormat = true ∧
      format.instantiate species size nil =
        { species
          format := Format.bytes + (4 - size % 4) % 4
          body := .bytes (Array.replicate size 0) }) := by
  rw [instantiate, ← withPadding_bytes]
  generalize format.instanceFormat = code at plain
  rw [Format.method] at plain
  rcases Nat.lt_or_ge code 5 with low | raw
  · have pointers : Format.isPointers code = true := by simpa [Format.isPointers]
    exact .inl ⟨pointers, if_pos pointers⟩
  · have pointers : Format.isPointers code = false := by simpa [Format.isPointers]
    rw [pointers]
    rcases Nat.lt_or_ge code 8 with low | high
    · have words : Format.isWords code = true := by simp [Format.isWords, raw, low]
      have bytes : Format.isBytes code = false := by simp [Format.isBytes, low]
      exact .inr (.inl ⟨rfl, bytes, if_pos words⟩)
    · have words : Format.isWords code = false := by simp [Format.isWords, high]
      have bytes : Format.isBytes code = true := by simp [Format.isBytes, high, plain]
      rw [words, bytes]
      exact .inr (.inr ⟨rfl, rfl, rfl⟩)

theorem species_instantiate : (format.instantiate species size nil).species = species := by
  rw [instantiate]
  split
  · rfl
  · split
    · rfl
    · split <;> rfl

/-- All fields of a new instance are nil. -/
theorem fields_instantiate (plain : format.instanceFormat < Format.method) :
    ((format.instantiate species size nil).pointers?).getD #[] =
      format.freshFields size nil := by
  rw [freshFields]
  rcases instantiate_cases plain with ⟨kind, made⟩ | ⟨kind, -, made⟩ | ⟨kind, -, made⟩ <;>
    rw [made, kind] <;> rfl

theorem format_instantiate (bytes : Format.isBytes format.instanceFormat = true)
    (plain : format.instanceFormat < Format.method) :
    (format.instantiate species size nil).format = Format.bytes + (4 - size % 4) % 4 := by
  rcases @instantiate_cases format species nil size plain with
    ⟨kind, -⟩ | ⟨-, kind, -⟩ | ⟨-, -, made⟩
  · simp only [Format.isPointers, Format.isBytes, decide_eq_true_eq] at kind bytes
    omega
  · cases kind.symm.trans bytes
  · rw [made]

/-- What a class describes is what its new instances have: as many elements as asked for, with
nothing in them. -/
theorem part_instantiate (object : Value) (indexable : format.isIndexable = true)
    (plain : format.instanceFormat < Format.method) :
    ∃ part datum,
      IndexedPart.ofBody? object format false (format.instantiate species size nil).body
        = some part ∧
      part.object = object ∧ part.size = size ∧ part.kind.Blank nil datum (format.blank nil) ∧
      ∀ place < size,
        (format.instantiate species size nil).body.datum? (part.fixed + place) = some datum := by
  simp only [IndexedPart.ofBody?, indexable, if_true, blank]
  rcases @instantiate_cases format species nil size plain with
    ⟨kind, made⟩ | ⟨kind, -, made⟩ | ⟨kind, -, made⟩ <;> rw [made, kind]
  · refine ⟨_, _, rfl, rfl, by simp, .pointers, fun place inside => ?_⟩
    simp [Body.datum?, inside]
  · refine ⟨_, _, rfl, rfl, by simp, .words, fun place inside => ?_⟩
    simp [Body.datum?, inside]
  · refine ⟨_, _, rfl, rfl, by simp, .bytes, fun place inside => ?_⟩
    simp [Body.datum?, inside]

end ClassFormat

/-! ## Elements -/

namespace Run

open Reply

variable {machine : Machine} {part : IndexedPart} {owner : HeapObject} {datum : Datum}
  {nil content receiver index selector : Value} {place : Nat}

/-- Nothing has to be made to answer for an element that nothing was stored in. -/
theorem readElement_blank (blank : part.kind.Blank nil datum content)
    (here : machine.heap.get? part.object = some owner)
    (held : owner.body.datum? (part.fixed + place) = some datum) :
    readElement part place machine = .ok content machine := by
  generalize known : part.kind = kind at blank
  rw [readElement, known]
  cases blank with
  | pointers => exact fetch_held here held
  | words => exact (bind_ok (wordAt_held here held)).trans rfl
  | bytes => exact (bind_ok (byteAt_held here held)).trans rfl

/-- There is no answer for an index without an element. -/
theorem elementAt_outside (send : Sender) (operands : machine.Operands [receiver, index])
    (count : machine.registers.argumentCount = 1)
    (found : machine.part? receiver false = some part)
    (outside : place? index part.size = none) :
    respond send 60 machine = .ok false machine := by
  have onReceiver : machine.Operand 1 receiver := operands.operand (show 0 < 2 by decide)
  have onIndex : machine.Operand 0 index := operands.operand (show 1 < 2 by decide)
  have described : indexedPart receiver false machine = .ok (some part) machine :=
    found ▸ indexedPart_apply (Machine.isDescribed_of_part? found)
  have replied : elementAt false 1 machine = .ok false machine := by
    refine (bind_ok (receiverOf_ok onReceiver)).trans ((bind_ok described).trans
      ((bind_ok (argument_ok (by decide) onIndex)).trans ?_))
    rw [outside]
    rfl
  have responds := @respond_apply machine 60 _ send rfl
  rw [count] at responds
  exact responds.trans (bind_ok replied)

/-- The answer for an element that nothing was stored in. -/
theorem elementAt_blank (send : Sender) (operands : machine.Operands [receiver, index])
    (count : machine.registers.argumentCount = 1)
    (here : machine.heap.get? receiver = some owner)
    (found : machine.part? receiver false = some part)
    (fetched : machine.heap.fetch machine.registers.specials.specialSelectors
      (CommonMessage.atIndex.index * 2) = .ok selector)
    (inside : place? index part.size = some place) (blank : part.kind.Blank nil datum content)
    (held : owner.body.datum? (part.fixed + place) = some datum) :
    ∃ after, respond send 60 machine = .ok true after ∧ machine.Presents content after := by
  obtain rfl := Machine.object_of_part? found
  rcases Machine.part?_eq_some_iff.mp found with ⟨same, format, there, described, isPart⟩
  obtain rfl := Option.some.inj (here.symm.trans there)
  have onReceiver : machine.Operand 1 part.object := operands.operand (show 0 < 2 by decide)
  have onIndex : machine.Operand 0 index := operands.operand (show 1 < 2 by decide)
  have depth : 2 ≤ machine.registers.sp := operands.depth
  have stack : machine.heap.fetch machine.registers.activeContext (machine.registers.sp - 2 + 1)
      = .ok part.object := by
    rw [show machine.registers.sp - 2 + 1 = machine.registers.sp - 1 by omega]
    exact onReceiver.2
  rcases elementAt_reads (operand_eq_ok onReceiver) (operand_eq_ok onIndex) here described
    isPart inside fetched with ⟨later, alike, same⟩
  have read : readElement part place later = .ok content later :=
    readElement_blank blank (alike.heap ▸ here) held
  rcases @succeed_answers machine later content _ alike stack with ⟨after, ended, presents⟩
  have responds := @respond_apply machine 60 _ send rfl
  rw [count] at responds
  exact ⟨after, responds.trans (bind_ok (same.trans ((bind_ok read).trans ended))), presents⟩

end Run

/-! ## A new object on the stack -/

namespace Machine

/-- A new object has come to the top of the stack as the last one in the table. All others have
other cells, and those that are needed are among them. -/
structure Makes (machine : Machine) (object : HeapObject) (slot : Nat) (after : Machine) : Prop
    extends machine.Boxes object slot after where
  consistent : after.heap.Consistent
  last : ∃ others, after.heap.table.toList = others ++ [slot] ∧ slot ∉ others ∧
    ∀ other, machine.Retains other → other ∈ others

variable {machine after : Machine} {object : HeapObject} {slot place index : Nat} {value : Value}

theorem Boxes.specials (boxes : machine.Boxes object slot after) :
    after.registers.specials = machine.registers.specials :=
  congrArg (fun machine => machine.registers.specials) boxes.bare

theorem Boxes.activeContext (boxes : machine.Boxes object slot after) :
    after.registers.activeContext = machine.registers.activeContext :=
  congrArg (fun machine => machine.registers.activeContext) boxes.bare

theorem Boxes.sp (boxes : machine.Boxes object slot after) :
    after.registers.sp = machine.registers.sp - 2 + 1 :=
  congrArg (fun machine => machine.registers.sp) boxes.bare

theorem Boxes.get? (boxes : machine.Boxes object slot after) (retained : machine.Retains place) :
    after.heap.get? (.object place) = (machine.heap.setField machine.registers.activeContext
      (machine.registers.sp - 2 + 1) (.object slot)).get? (.object place) :=
  boxes.retained place retained

/-- A retained object has the field that it had, unless that is the new top of the stack. -/
theorem Boxes.fetch (boxes : machine.Boxes object slot after) (retained : machine.Retains place)
    (low : index ≠ machine.registers.sp - 2 + 1) :
    after.heap.fetch (.object place) index = machine.heap.fetch (.object place) index :=
  (Heap.fetch_congr (boxes.get? retained) index).trans
    (Heap.fetch_setField_other (.inr low.symm))

/-- Entries of a retained object stay entries. -/
theorem Boxes.exists_fetch (boxes : machine.Boxes object slot after)
    (retained : machine.Retains place)
    (fetched : ∃ content, machine.heap.fetch (.object place) index = .ok content) :
    ∃ content, after.heap.fetch (.object place) index = .ok content := by
  rw [Heap.fetch_congr (boxes.get? retained)]
  exact (Heap.Overwrites.setField _ _ _).exists_fetch fetched

/-- What lies on the stack is retained. -/
theorem retains_of_fetch
    (fetched : machine.heap.fetch machine.registers.activeContext index = .ok (.object place))
    (live : machine.heap.Live place) : machine.Retains place := by
  rcases retains_activeContext fetched with ⟨slot, context, retained⟩
  rcases Heap.mem_references_of_fetch fetched with ⟨owner, here, member⟩
  rw [context] at here
  exact .step retained here (List.mem_filterMap.mpr ⟨.object place, member, rfl⟩) live

/-- The special selectors are retained. -/
theorem retains_specialSelectors
    (fetched : machine.heap.fetch machine.registers.specials.specialSelectors index = .ok value) :
    ∃ place, machine.registers.specials.specialSelectors = .object place ∧
      machine.Retains place := by
  rcases Heap.mem_references_of_fetch fetched with ⟨owner, here, -⟩
  cases selectors : machine.registers.specials.specialSelectors with
  | small n =>
    rw [selectors] at here
    cases here
  | object place =>
    rw [selectors] at here
    refine ⟨place, rfl, .seed (List.mem_filterMap.mpr ⟨.object place, ?_, rfl⟩)
      (Heap.live_of_cell? here)⟩
    rw [← selectors]
    simp [Registers.lasting, Specials.values]

end Machine

namespace Run

open Reply

variable {machine : Machine} {species size value : Value} {format : ClassFormat} {n : Nat}

/-- A registration lists the new object after all others. -/
theorem register_lists (consistent : machine.heap.Consistent) {object : HeapObject} {slot : Nat}
    {after : Machine} (ended : register object machine = .ok (.object slot) after) :
    after.heap.Consistent ∧ ∃ others, after.heap.table.toList = others ++ [slot] ∧
      slot ∉ others ∧ ∀ other, machine.Retains other → other ∈ others := by
  rcases ensures_onHeap machine _ _ after ended with ⟨rooted, registered, rfl⟩
  rcases HeapM.register_cases consistent registered with ⟨_, _, _, -, -, -, places⟩
  rcases HeapM.register_admits consistent registered with ⟨same, others, named, admits⟩
  cases named
  exact ⟨places.consistent, others, admits.table, admits.unused, fun other retained =>
    (admits.needed other (retained.needed (.refl machine) object)).1⟩

/-- An object is registered and put in place of two operands. -/
theorem register_replace_makes (consistent : machine.heap.Consistent) (object : HeapObject)
    (stack : machine.heap.fetch machine.registers.activeContext
      (machine.registers.sp - 2 + 1) = .ok value) :
    (∃ slot after, (do replace 2 (← register object)) machine = .ok () after ∧
      machine.Makes object slot after) ∨
    ∃ capacity after, (do replace 2 (← register object)) machine
      = .error (.error (.memory (.tableFull capacity))) after := by
  rcases register_cases (.refl machine) consistent object with
    ⟨slot, between, ended, acquires⟩ | ⟨capacity, after, refused⟩
  · rcases replace_boxes acquires stack with ⟨after, replaced, boxes⟩
    rcases register_lists consistent ended with ⟨sound, last⟩
    rcases ensures_replace between 2 (.object slot) () after replaced with ⟨-, rfl⟩
    exact .inl ⟨slot, _, (bind_ok ended).trans replaced, { boxes with
      consistent := Heap.consistent_update sound _ _
      last := by
        rcases last with ⟨others, table, rest⟩
        exact ⟨others, (congrArg Array.toList (Heap.table_update _ _)).trans table, rest⟩ }⟩
  · exact .inr ⟨capacity, after, bind_error refused⟩

/-- A class with a format makes instances as the format describes them. -/
theorem instantiate_apply (described : machine.heap.classFormat species = .ok format) :
    instantiate species n machine =
      register (format.instantiate species n machine.registers.specials.nil) machine := by
  rcases bind_eq_ok_iff.mp described with ⟨bits, read, same⟩
  cases same
  rcases bind_eq_ok_iff.mp read with ⟨description, fetched, number⟩
  have bits : description.int? = some bits := by
    cases known : description.int? with
    | none => simp [known] at number
    | some other => simpa [known] using number
  refine (bind_ok getNil_apply).trans ?_
  rw [HeapM.instantiate, onHeap_read]
  refine (bind_ok (readHeap_ok fetched)).trans ?_
  rw [bits]
  rfl

/-- What the primitive for instances of a given size does with a class and a size. -/
theorem basicNewWithSize_apply (operands : machine.Operands [species, size])
    (described : machine.heap.classFormat species = .ok format)
    (indexable : format.isIndexable = true) (number : size.nat? = some n) :
    basicNewWithSize 1 machine = (do
      let object ← register (format.instantiate species n machine.registers.specials.nil)
      replace 2 object
      return true) machine := by
  have onSpecies : machine.Operand 1 species := operands.operand (show 0 < 2 by decide)
  have onSize : machine.Operand 0 size := operands.operand (show 1 < 2 by decide)
  have asked : classFormat? species machine = .ok (some format) machine := by
    cases species with
    | small n => cases described
    | object slot =>
      refine (bind_ok getHeap_apply).trans ?_
      rw [described]
      rfl
  refine (bind_ok (receiverOf_ok onSpecies)).trans
    ((bind_ok (argument_ok (by decide) onSize)).trans ?_)
  rw [number]
  refine (bind_ok asked).trans ?_
  dsimp only
  rw [indexable]
  change (instantiate species n >>= succeed 1) machine = _
  simp only [bind, EStateM.bind, instantiate_apply described]
  rfl

/-- A new instance is put in place of its class and its size, or the table is full. -/
theorem basicNewWithSize_makes (send : Sender) (operands : machine.Operands [species, size])
    (count : machine.registers.argumentCount = 1) (consistent : machine.heap.Consistent)
    (described : machine.heap.classFormat species = .ok format)
    (indexable : format.isIndexable = true) (number : size.nat? = some n) :
    (∃ slot after, respond send 71 machine = .ok true after ∧
      machine.Makes (format.instantiate species n machine.registers.specials.nil) slot after) ∨
    ∃ capacity after,
      respond send 71 machine = .error (.error (.memory (.tableFull capacity))) after := by
  have responds := @respond_apply machine 71 _ send rfl
  rw [count] at responds
  have replied := basicNewWithSize_apply operands described indexable number
  have depth : 2 ≤ machine.registers.sp := operands.depth
  have onSpecies : machine.Operand 1 species := operands.operand (show 0 < 2 by decide)
  have stack : machine.heap.fetch machine.registers.activeContext (machine.registers.sp - 2 + 1)
      = .ok species := by
    rw [show machine.registers.sp - 2 + 1 = machine.registers.sp - 1 by omega]
    exact onSpecies.2
  rw [← bind_assoc] at replied
  rcases register_replace_makes consistent
      (format.instantiate species n machine.registers.specials.nil) stack with
    ⟨slot, after, ended, makes⟩ | ⟨capacity, after, refused⟩
  · exact .inl ⟨slot, after, responds.trans (bind_ok (replied.trans (bind_ok ended))), makes⟩
  · exact .inr ⟨capacity, after, responds.trans (bind_error (replied.trans (bind_error refused)))⟩

/-- The primitive for sizes puts the size in place of its receiver. -/
theorem sizeOf_answers (send : Sender) {part : IndexedPart} {receiver : Value}
    (operand : machine.Operand 0 receiver) (positive : 0 < machine.registers.sp)
    (count : machine.registers.argumentCount = 0)
    (found : machine.part? receiver false = some part) :
    respond send 62 machine = .ok true (machine.withTop (machine.heap.setField
      machine.registers.activeContext machine.registers.sp (.ofInt part.size))
      machine.registers.sp) := by
  have same : machine.registers.sp - 1 + 1 = machine.registers.sp := by omega
  rcases Heap.fetch_eq_ok_iff.mp operand.2 with ⟨fields, readable, inside⟩
  have stored : machine.heap.store machine.registers.activeContext (machine.registers.sp - 1 + 1)
      (.ofInt part.size) = .ok (machine.heap.setField machine.registers.activeContext
        machine.registers.sp (.ofInt part.size)) := by
    rw [same]
    exact Heap.store_eq_ok_iff.mpr
      ⟨⟨fields, readable, (Array.getElem?_eq_some_iff.mp inside).1⟩, rfl⟩
  have replied : sizeOf 0 machine = .ok true (machine.withTop (machine.heap.setField
      machine.registers.activeContext machine.registers.sp (.ofInt part.size))
      machine.registers.sp) := by
    have described : indexedPart receiver false machine = .ok (some part) machine :=
      found ▸ indexedPart_apply (Machine.isDescribed_of_part? found)
    refine (bind_ok (receiverOf_ok operand)).trans ((bind_ok described).trans
      ((bind_ok (replace_apply stored)).trans ?_))
    rw [same]
    rfl
  have responds := @respond_apply machine 62 _ send rfl
  rw [count] at responds
  exact responds.trans (bind_ok replied)

end Run

namespace Machine

open Run

variable {machine after : Machine} {species size : Value} {format : ClassFormat} {n slot : Nat}

/-- The machine with a message without arguments to what is on top of its stack. -/
def unary (machine : Machine) : Machine := { machine with registers.argumentCount := 0 }

/-- The class is on the stack, so it is kept as it was. -/
theorem Boxes.classFormat {object : HeapObject} (boxes : machine.Boxes object slot after)
    (operands : machine.Operands [species, size])
    (above : ContextField.frame ≤ machine.registers.sp - 1)
    (described : machine.heap.classFormat species = .ok format) :
    after.heap.classFormat species = .ok format := by
  have low : ClassField.format ≠ machine.registers.sp - 2 + 1 := by
    simp only [ContextField.frame, ClassField.format] at above ⊢
    omega
  have onSpecies : machine.Operand 1 species := operands.operand (show 0 < 2 by decide)
  rcases bind_eq_ok_iff.mp described with ⟨bits, read, same⟩
  rcases bind_eq_ok_iff.mp read with ⟨description, fetched, number⟩
  rcases Heap.mem_references_of_fetch fetched with ⟨owner, here, -⟩
  cases species with
  | small n => cases here
  | object place =>
    have retained := retains_of_fetch onSpecies.2 (Heap.live_of_cell? here)
    rw [← described, Heap.classFormat, Heap.classFormat, Heap.fetchInt, Heap.fetchInt,
      boxes.fetch retained low]

/-- What is asked for afterwards is found. -/
theorem Makes.top {object : HeapObject} (makes : machine.Makes object slot after)
    (operands : machine.Operands [species, size]) :
    after.Operand 0 (.object slot) ∧
      after.heap.fetch after.registers.activeContext (machine.registers.sp - 1 + 1) = .ok size ∧
      .object slot ≠ after.registers.activeContext := by
  have depth : 2 ≤ machine.registers.sp := operands.depth
  have below : machine.registers.sp - 2 + 1 = machine.registers.sp - 1 := by omega
  have onSpecies : machine.Operand 1 species := operands.operand (show 0 < 2 by decide)
  have onSize : machine.Operand 0 size := operands.operand (show 1 < 2 by decide)
  rcases retains_activeContext onSpecies.2 with ⟨place, context, retained⟩
  refine ⟨⟨Nat.zero_le _, ?_⟩, ?_, ?_⟩
  · rw [makes.activeContext, makes.sp, context, Nat.sub_zero,
      Heap.fetch_congr (makes.toBoxes.get? retained), context, below]
    rcases Heap.fetch_eq_ok_iff.mp (context ▸ onSpecies.2) with ⟨fields, readable, inside⟩
    exact Heap.fetch_setField_same readable (Array.getElem?_eq_some_iff.mp inside).1 _
  · rw [makes.activeContext, context, makes.toBoxes.fetch retained (by omega), ← context,
      Nat.sub_add_cancel (by omega)]
    exact onSize.2
  · rw [makes.activeContext, context]
    intro same
    cases same
    exact makes.unused retained

/-- The part of a new instance that is reached by an index, for as long as its class stays. -/
theorem Makes.part?_eq_some {part : IndexedPart} {object : HeapObject}
    (makes : machine.Makes object slot after) (operands : machine.Operands [species, size])
    (above : ContextField.frame ≤ machine.registers.sp - 1) (same : object.species = species)
    (described : machine.heap.classFormat species = .ok format)
    (isPart : IndexedPart.ofBody? (.object slot) format false object.body = some part) :
    after.part? (.object slot) false = some part := by
  refine part?_eq_some_iff.mpr ⟨_, format, makes.filled, ?_, isPart⟩
  rw [same]
  exact makes.toBoxes.classFormat operands above described

/-- A new instance that has nothing in its elements answers for each of them, and for no other. -/
theorem Makes.elementAt_answers (send : Reply.Sender) {part : IndexedPart} {object : HeapObject}
    {datum : Datum} {nil content : Value} (makes : machine.Makes object slot after)
    (operands : machine.Operands [species, size])
    (above : ContextField.frame ≤ machine.registers.sp - 1)
    (found : after.part? (.object slot) false = some part)
    (blank : part.kind.Blank nil datum content)
    (held : ∀ place < part.size, object.body.datum? (part.fixed + place) = some datum)
    (index : Value) :
    let asking := after.posing (machine.registers.sp - 1) (.object slot) index
    ((∀ place < part.size, index.int? ≠ some ((place : Int) + 1)) →
      respond send 60 asking = .ok false asking) ∧
    ((∃ selector, machine.heap.fetch machine.registers.specials.specialSelectors
        (CommonMessage.atIndex.index * 2) = .ok selector) →
      ∀ place < part.size, index.int? = some ((place : Int) + 1) → ∃ last,
        respond send 60 asking = .ok true last ∧ asking.Presents content last) := by
  intro asking
  rcases makes.top operands with ⟨top, stack, apart⟩
  have base : machine.registers.sp - 1 = after.registers.sp := by
    have depth : 2 ≤ machine.registers.sp := operands.depth
    rw [makes.sp]
    omega
  have positive : 0 < machine.registers.sp - 1 := lt_of_lt_of_le (by decide) above
  have onTop : after.heap.fetch after.registers.activeContext (machine.registers.sp - 1)
      = .ok (.object slot) := by
    rw [base]
    exact top.2
  have asked : asking.Operands [.object slot, index] := operands_posing positive onTop stack
  have posed : asking.part? (.object slot) false = some part :=
    (part?_posing above apart).trans found
  constructor
  · intro outside
    refine elementAt_outside send asked rfl posed
      (Option.eq_none_iff_forall_ne_some.mpr fun place inside => ?_)
    rcases Reply.place?_eq_some_iff.mp inside with ⟨known, bounded⟩
    exact outside place bounded known
  · rintro ⟨selector, fetched⟩ place bounded known
    rcases retains_specialSelectors fetched with ⟨array, selectors, retained⟩
    have kept : ∃ selector, after.heap.fetch after.registers.specials.specialSelectors
        (CommonMessage.atIndex.index * 2) = .ok selector := by
      rw [makes.specials, selectors]
      exact makes.toBoxes.exists_fetch retained ⟨selector, selectors ▸ fetched⟩
    rcases fetch_posing kept with ⟨later, fetched⟩
    exact elementAt_blank send asked rfl ((get?_posing apart).trans makes.filled) posed fetched
      (Reply.place?_eq_some_iff.mpr ⟨known, bounded⟩) blank (held place bounded)

/-- A class with indexable instances makes one of the size that is asked for, or the table is
full. The new instance is the last object in the table, apart from all others. Its fields are nil,
and the unused bytes of its last word are counted in its format. It has the size that was asked
for, nothing in any of its elements, and no others. -/
theorem new_instance_has_shape (send : Reply.Sender)
    (operands : machine.Operands [species, size]) (count : machine.registers.argumentCount = 1)
    (above : ContextField.frame ≤ machine.registers.sp - 1) (consistent : machine.heap.Consistent)
    (described : machine.heap.classFormat species = .ok format)
    (indexable : format.isIndexable = true) (plain : format.instanceFormat < Format.method)
    (number : size.nat? = some n) :
    let nil := machine.registers.specials.nil
    let object := format.instantiate species n nil
    (∃ slot after, respond send 71 machine = .ok true after ∧
      machine.Makes object slot after ∧ after.Operand 0 (.object slot) ∧
      object.species = species ∧ object.pointers?.getD #[] = format.freshFields n nil ∧
      (Format.isBytes format.instanceFormat = true →
        object.format = Format.bytes + (4 - n % 4) % 4) ∧
      respond send 62 after.unary = .ok true (after.unary.withTop (after.heap.setField
        after.registers.activeContext after.registers.sp size) after.registers.sp) ∧
      ∀ index,
        let asking := after.posing (machine.registers.sp - 1) (.object slot) index
        ((∀ place < n, index.int? ≠ some ((place : Int) + 1)) →
          respond send 60 asking = .ok false asking) ∧
        ((∃ selector, machine.heap.fetch machine.registers.specials.specialSelectors
            (CommonMessage.atIndex.index * 2) = .ok selector) →
          ∀ place < n, index.int? = some ((place : Int) + 1) → ∃ last,
            respond send 60 asking = .ok true last ∧
            asking.Presents (format.blank nil) last)) ∨
    ∃ capacity after,
      respond send 71 machine = .error (.error (.memory (.tableFull capacity))) after := by
  intro nil object
  rcases basicNewWithSize_makes send operands count consistent described indexable number with
    ⟨slot, after, ended, makes⟩ | full
  · refine .inl ⟨slot, after, ended, makes, ?_⟩
    rcases ClassFormat.part_instantiate (.object slot) indexable plain with
      ⟨part, datum, isPart, same, sized, blank, held⟩
    have found : after.part? (.object slot) false = some part :=
      makes.part?_eq_some operands above ClassFormat.species_instantiate described isPart
    have top : after.Operand 0 (.object slot) := (makes.top operands).1
    have positive : 0 < after.registers.sp := by
      rw [makes.sp]
      omega
    have answered := sizeOf_answers send (show after.unary.Operand 0 (.object slot) from top)
      positive rfl found
    rw [sized, Value.ofInt_of_nat? number] at answered
    have elements := makes.elementAt_answers send operands above found blank (sized ▸ held)
    rw [sized] at elements
    exact ⟨top, ClassFormat.species_instantiate, ClassFormat.fields_instantiate plain,
      fun bytes => ClassFormat.format_instantiate bytes plain, answered, elements⟩
  · exact .inr full

/-- A machine that has been asked for an instance with five bytes. Three of its nine objects are
not needed. -/
def classMachine (capacity : Nat) (selectors : Value) : Machine :=
  let nil : Value := .object 0
  let species := sampleNode .zero #[nil, nil, (ClassFormat.pack 2 Format.bytes).value]
  let machine := sampleMachine
    [sampleNode .zero #[], species, sampleNode .zero #[], sampleNode .zero (Array.replicate 36 nil),
      sampleNode .zero #[], sampleNode .zero #[], sampleMethod 0 [] #[120],
      sampleNode .zero #[nil, nil, nil, .object 6, nil, .object 8, .object 1, .ofInt 5],
      sampleNode .zero #[]]
    capacity nil
  { machine with registers := { machine.registers with
      specials := { machine.registers.specials with specialSelectors := selectors }
      sp := 7
      argumentCount := 1 } }

theorem operands_classMachine (capacity : Nat) (selectors : Value) :
    (classMachine capacity selectors).Operands [.object 1, .ofInt 5] := by
  refine ⟨Nat.le_of_ble_eq_true rfl, fun place inside => ?_⟩
  match place, inside with
  | 0, _ | 1, _ => rfl

/-- With a full table, room for the instance is made by collecting. -/
theorem new_instance_has_shape_classMachine :
    let machine := classMachine 9 (.object 3)
    machine.heap.size = machine.heap.capacity ∧ machine.Operands [.object 1, .ofInt 5] ∧
      machine.heap.Consistent ∧
      machine.heap.classFormat (.object 1) = .ok (ClassFormat.pack 2 Format.bytes) ∧
      ∃ slot after, respond (sendToClass 0) 71 machine = .ok true after ∧
        (after.heap.get? (.object slot)).map (fun object => (object.species, object.format, object.body))
          = some (.object 1, 11, .bytes #[0, 0, 0, 0, 0]) ∧
        (∃ last, respond (sendToClass 0) 60 (after.posing 6 (.object slot) (.ofInt 5))
          = .ok true last) ∧
        respond (sendToClass 0) 60 (after.posing 6 (.object slot) (.ofInt 6))
          = .ok false (after.posing 6 (.object slot) (.ofInt 6)) := by
  intro machine
  have operands : machine.Operands [.object 1, .ofInt 5] := operands_classMachine 9 (.object 3)
  have consistent : machine.heap.Consistent := by decide +kernel
  have described : machine.heap.classFormat (.object 1) = .ok (ClassFormat.pack 2 Format.bytes) := by
    decide +kernel
  have ends : (respond (sendToClass 0) 71).ended? machine ≠ none := by decide +kernel
  rcases new_instance_has_shape (sendToClass 0) operands rfl (by decide) consistent described
      (by decide) (by decide) rfl with
    ⟨slot, after, ended, makes, -, -, -, -, -, elements⟩ | ⟨capacity, after, full⟩
  · have filled : after.heap.get? (.object slot) = some _ := makes.filled
    refine ⟨by decide +kernel, operands, consistent, described, slot, after, ended,
      by rw [filled]; decide +kernel, ?_, ?_⟩
    · rcases (elements (.ofInt 5)).2 ⟨.object 0, by decide +kernel⟩ 4 (by decide) rfl with
        ⟨last, answered, -⟩
      exact ⟨last, answered⟩
    · refine (elements (.ofInt 6)).1 fun place inside same => ?_
      have six : (6 : Int) = place + 1 := Option.some.inj same
      have bounded : place < 5 := inside
      omega
  · refine absurd ?_ ends
    rw [ended?, full]

/-- Without the special selectors the machine stops when it is asked for an element of the new
instance. -/
theorem new_instance_stops_without_selectors :
    let machine := classMachine 10 (.object 0)
    machine.heap.Consistent ∧ machine.Operands [.object 1, .ofInt 5] ∧
      machine.heap.classFormat (.object 1) = .ok (ClassFormat.pack 2 Format.bytes) ∧
      ∃ after, respond (sendToClass 0) 71 machine = .ok true after ∧
        after.Operand 0 (.object 9) ∧
        (respond (sendToClass 0) 60).ended? (after.posing 6 (.object 9) (.ofInt 1)) = none := by
  intro machine
  have ended : respond (sendToClass 0) 71 machine
      = .ok true ((respond (sendToClass 0) 71).left machine) :=
    ended?_eq_some.mp (by decide +kernel)
  exact ⟨by decide +kernel, operands_classMachine 10 (.object 0), by decide +kernel, _, ended,
    ⟨by decide +kernel, by decide +kernel⟩, by decide +kernel⟩

end Machine

end Smalltalk
