import Smalltalk.Proofs.Indexed.Boxing
import Smalltalk.Proofs.Indexed.Elements

namespace Smalltalk

/-! What `at:` answers is decided by what the slot holds. A value is answered as it is, a byte
as a small integer or as the Character of that number, and a word as a number, for which
an object may have to be made. -/

/-! ## Numbers -/

/-- The number that bytes stand for, of which the first is the lowest. -/
def bytesNumber (bytes : List UInt8) : Nat :=
  bytes.foldr (fun byte number => byte.toNat + 256 * number) 0

theorem bytesNumber_lt (bytes : List UInt8) : bytesNumber bytes < 256 ^ bytes.length := by
  induction bytes with
  | nil => decide
  | cons byte rest ih =>
    have := byte.toNat_lt
    simp only [bytesNumber, List.foldr_cons, List.length_cons, Nat.pow_succ] at ih ⊢
    omega

/-- Up to four bytes can be shifted into a word. -/
theorem toNat_foldr_shift {bytes : List UInt8} (short : bytes.length ≤ 4) :
    (bytes.foldr (fun byte word => word <<< (8 : UInt32) ||| byte.toUInt32) 0).toNat
      = bytesNumber bytes := by
  induction bytes with
  | nil => rfl
  | cons byte rest ih =>
    have rest_lt : bytesNumber rest < 256 ^ 3 :=
      (bytesNumber_lt rest).trans_le
        (Nat.pow_le_pow_right (by decide) (Nat.le_of_succ_le_succ short))
    have byte_lt : byte.toNat < 2 ^ 8 := byte.toNat_lt
    have shifted : bytesNumber rest <<< 8 < 2 ^ 32 := by
      rw [Nat.shiftLeft_eq]
      omega
    rw [List.foldr_cons, UInt32.toNat_or, UInt32.toNat_shiftLeft,
      ih (Nat.le_of_succ_le short), UInt8.toNat_toUInt32]
    change (bytesNumber rest <<< 8) % 2 ^ 32 ||| byte.toNat = byte.toNat + 256 * bytesNumber rest
    rw [Nat.mod_eq_of_lt shifted, ← Nat.shiftLeft_add_eq_or_of_lt byte_lt, Nat.shiftLeft_eq]
    omega

theorem bytesNumber_littleEndian (word : UInt32) :
    bytesNumber (Run.littleEndian word).toList = word.toNat := by
  have := word.toNat_lt
  simp [bytesNumber, Run.littleEndian, Nat.shiftRight_eq_div_pow]
  omega

namespace Machine

/-- The number below 2^32 that a value stands for: it is a small integer or a
LargePositiveInteger of at most four bytes. -/
def number? (machine : Machine) (value : Value) : Option Nat :=
  match value with
  | .small n => if 0 ≤ n.val then some n.val.toNat else none
  | .object _ => (machine.heap.get? value).bind fun object =>
    if object.species = machine.registers.specials.largePositiveIntegerClass then
      (object.bytes?.filter (·.size ≤ 4)).map fun bytes => bytesNumber bytes.toList
    else none

variable {machine asked after : Machine} {value answer : Value} {kind : IndexedKind}
  {datum : Datum}

theorem number?_of_ofInt? {word : UInt32} (small : Value.ofInt? word.toNat = some value) :
    machine.number? value = some word.toNat := by
  rcases Option.map_eq_some_iff.mp small with ⟨n, known, rfl⟩
  have same := SmallInt.ofInt?_eq_some.mp known
  simp only [number?, same, Int.toNat_natCast]
  rw [if_pos (by omega)]

theorem number?_lt {number : Nat} (known : machine.number? value = some number) :
    number < 4294967296 := by
  cases value with
  | small n =>
    have upper := n.upper
    simp only [number?, SmallInt.maximum] at known upper
    split at known
    · cases known
      omega
    · cases known
  | object slot =>
    rcases Option.bind_eq_some_iff.mp known with ⟨owner, -, known⟩
    split at known
    · rcases Option.map_eq_some_iff.mp known with ⟨bytes, short, rfl⟩
      have short := (Option.filter_eq_some_iff.mp short).2
      have length : bytes.toList.length ≤ 4 := by simpa using short
      exact (bytesNumber_lt bytes.toList).trans_le (Nat.pow_le_pow_right (by decide) length)
    · cases known

/-! ## Answers -/

/-- The value that an access answers for what a slot holds. -/
inductive Shows (asked after : Machine) : IndexedKind → Datum → Value → Prop
  | value (content : Value) : Shows asked after .pointers (.value content) content
  | number {word : UInt32} {answer : Value} (number : after.number? answer = some word.toNat) :
      Shows asked after .words (.word word) answer
  | byte (content : UInt8) : Shows asked after .bytes (.byte content) (.ofInt content.toNat)
  | character {code : UInt8} {answer : Value}
      (entry : asked.heap.fetch asked.registers.specials.characterTable code.toNat = .ok answer) :
      Shows asked after .chars (.byte code) answer

/-- How an answer takes the place of a receiver and an index. Apart from what a collection
gives up nothing else is different: all objects that were retained are as they were. -/
structure Presents (asked : Machine) (answer : Value) (after : Machine) : Prop where
  bare : after.bare = (asked.withTop after.heap (asked.registers.sp - 2 + 1)).bare
  top : after.Operand 0 answer
  retained : ∀ other, asked.Retains other →
    after.heap.cell? other = (asked.heap.setField asked.registers.activeContext
      (asked.registers.sp - 2 + 1) answer).cell? other

/-- A new object in place of the operands is an answer. -/
theorem Boxes.presents {object : HeapObject} {slot : Nat} (boxes : asked.Boxes object slot after)
    (stack : asked.heap.fetch asked.registers.activeContext (asked.registers.sp - 2 + 1)
      = .ok value) : asked.Presents (.object slot) after := by
  refine ⟨boxes.bare, ⟨Nat.zero_le _, ?_⟩, boxes.retained⟩
  have active : after.registers.activeContext = asked.registers.activeContext :=
    congrArg (fun machine => machine.registers.activeContext) boxes.bare
  have sp : after.registers.sp = asked.registers.sp - 2 + 1 :=
    congrArg (fun machine => machine.registers.sp) boxes.bare
  rcases retains_activeContext stack with ⟨place, context, retained⟩
  rcases Heap.fetch_eq_ok_iff.mp stack with ⟨fields, readable, inside⟩
  have kept : after.heap.get? (.object place) = (asked.heap.setField asked.registers.activeContext
      (asked.registers.sp - 2 + 1) (.object slot)).get? (.object place) :=
    boxes.retained place retained
  rw [active, sp, Nat.sub_zero, context, Heap.fetch_congr kept, context]
  rw [context] at readable
  exact Heap.fetch_setField_same readable (Array.getElem?_eq_some_iff.mp inside).1 _

end Machine

namespace Run

variable {machine : Machine} {value : Value}

/-- The primitives take a value for the number that it stands for. -/
theorem wordOf_apply :
    wordOf value machine = .ok ((machine.number? value).map UInt32.ofNat) machine := by
  cases value with
  | small n =>
    simp only [wordOf, Machine.number?]
    split <;> rfl
  | object slot =>
    refine (bind_ok get_apply).trans ?_
    simp only [Machine.number?]
    cases machine.heap.get? (.object slot) with
    | none => rfl
    | some owner =>
      simp only [ne_eq, ite_not, Option.bind_some]
      split
      · cases owner.bytes? with
        | none => rfl
        | some bytes =>
          simp only [Option.filter_some, decide_eq_true_eq]
          split
          · rename_i short
            rw [← Array.length_toList] at short
            refine congrArg (fun word => EStateM.Result.ok (some word) machine) ?_
            dsimp only
            rw [← toNat_foldr_shift short, UInt32.ofNat_toNat, ← Array.foldr_toList]
          · rfl
      · rfl

/-! ## Reading -/

/-- A computation answers for what a slot holds. It stops when the table has no room for a
number that is no small integer, and when a Character has no entry in its table. -/
def FindsIn (run : Run Bool) (asked found : Machine) (kind : IndexedKind) (datum : Datum) : Prop :=
  (∃ answer after, run found = .ok true after ∧ asked.Presents answer after ∧
    asked.Shows after kind datum answer) ∨
  (∃ word, datum = .word word ∧ Value.ofInt? word.toNat = none ∧ ∃ capacity after,
    run found = .error (.error (.memory (.tableFull capacity))) after) ∨
  ∃ code error after, kind = .chars ∧ datum = .byte code ∧
    asked.heap.fetch asked.registers.specials.characterTable code.toNat = .error error ∧
    run found = .error (.error (.memory error)) after

/-- An access fails where there is no element, and answers for the element otherwise. -/
def Finds (run : Run Bool) (asked : Machine) (kind : IndexedKind) : Option Datum → Prop
  | none => run asked = .ok false asked
  | some datum => run.FindsIn asked asked kind datum

variable {asked found : Machine} {kind : IndexedKind} {datum : Datum} {answer operand : Value}

theorem FindsIn.of_eq {run other : Run Bool} {later : Machine}
    (finds : run.FindsIn asked later kind datum) (same : other found = run later) :
    other.FindsIn asked found kind datum := by
  rw [FindsIn, same]
  exact finds

theorem FindsIn.bind {run : Run Bool} {next : Bool → Run Bool}
    (finds : run.FindsIn asked found kind datum)
    (rest : ∀ after, next true after = .ok true after) :
    (run >>= next).FindsIn asked found kind datum := by
  rcases finds with ⟨answer, after, ended, answers⟩ | ⟨word, isWord, large, capacity, after, full⟩ |
    ⟨code, error, after, isChar, isByte, entry, stopped⟩
  · exact .inl ⟨answer, after, (bind_ok ended).trans (rest after), answers⟩
  · exact .inr (.inl ⟨word, isWord, large, capacity, after, bind_error full⟩)
  · exact .inr (.inr ⟨code, error, after, isChar, isByte, entry, bind_error stopped⟩)

/-- An answer that is there already is put in place of the operands. -/
theorem succeed_answers (alike : found.Alike asked)
    (stack : asked.heap.fetch asked.registers.activeContext (asked.registers.sp - 2 + 1)
      = .ok operand) :
    ∃ after, succeed 1 answer found = .ok true after ∧ asked.Presents answer after := by
  rcases Heap.fetch_eq_ok_iff.mp stack with ⟨fields, readable, inside⟩
  have bounded := (Array.getElem?_eq_some_iff.mp inside).1
  have stored : found.heap.store found.registers.activeContext (found.registers.sp - 2 + 1) answer
      = .ok (asked.heap.setField asked.registers.activeContext (asked.registers.sp - 2 + 1)
        answer) := by
    rw [alike.heap, alike.activeContext, alike.sp]
    exact Heap.store_eq_ok_iff.mpr ⟨⟨fields, readable, bounded⟩, rfl⟩
  refine ⟨_, bind_ok (replace_apply stored), ?_, ⟨Nat.zero_le _, ?_⟩, fun _ _ => rfl⟩
  · rw [alike.sp]
    exact Machine.bare_withTop alike.bare _ _
  · rw [alike.sp]
    exact (congrArg (fun context => Heap.fetch _ context _) alike.activeContext).trans
      (Heap.fetch_setField_same readable bounded answer)

section

variable {object : Value} {owner : HeapObject} {slot : Nat}

theorem fetch_held {content : Value} (here : machine.heap.get? object = some owner)
    (held : owner.body.datum? slot = some (.value content)) :
    fetch object slot machine = .ok content machine := by
  rcases owner with ⟨species, format, hash, body⟩
  cases body <;> simp only [Body.datum?, Option.map_eq_some_iff, reduceCtorEq, and_false,
    exists_false] at held
  rcases held with ⟨same, known, equal⟩
  cases equal
  exact fetch_ok (Heap.fetch_eq_ok_iff.mpr
    ⟨_, Heap.pointers_eq_ok_iff.mpr ⟨_, here, rfl⟩, known⟩)

theorem wordAt_held {word : UInt32} (here : machine.heap.get? object = some owner)
    (held : owner.body.datum? slot = some (.word word)) :
    Reply.wordAt object slot machine = .ok word machine := by
  rcases owner with ⟨species, format, hash, body⟩
  cases body <;> simp only [Body.datum?, Option.map_eq_some_iff, reduceCtorEq, and_false,
    exists_false] at held
  rcases held with ⟨same, known, equal⟩
  cases equal
  refine (bind_ok (object_ok here)).trans ?_
  simp only [HeapObject.words?, Body.words?, known]
  rfl

theorem byteAt_held {byte : UInt8} (here : machine.heap.get? object = some owner)
    (held : owner.body.datum? slot = some (.byte byte)) :
    Reply.byteAt object slot machine = .ok byte machine := by
  rcases owner with ⟨species, format, hash, body⟩
  cases body <;> simp only [Body.datum?, Option.map_eq_some_iff, reduceCtorEq, and_false,
    exists_false] at held
  rcases held with ⟨same, known, equal⟩
  cases equal
  refine (bind_ok (object_ok here)).trans ?_
  simp only [HeapObject.bytes?, Body.bytes?, known]
  rfl

end

/-- The number of a word that is no small integer is made, if there is room for it. -/
theorem readElement_finds_large {part : IndexedPart} {owner : HeapObject} {place : Nat}
    {word : UInt32} (alike : found.Alike asked) (consistent : asked.heap.Consistent)
    (stack : asked.heap.fetch asked.registers.activeContext (asked.registers.sp - 2 + 1)
      = .ok operand)
    (here : asked.heap.get? part.object = some owner) (words : part.kind = .words)
    (held : owner.body.datum? (part.fixed + place) = some (.word word))
    (large : Value.ofInt? word.toNat = none) :
    (do succeed 1 (← Reply.readElement part place)).FindsIn asked found part.kind
      (.word word) := by
  rcases readElement_boxes alike consistent stack words (wordAt_held here held) large with
    ⟨slot, after, ended, boxes⟩ | ⟨capacity, after, refused⟩
  · refine .inl ⟨.object slot, after, ended, boxes.presents stack, words ▸ .number ?_⟩
    have specials : after.registers.specials = asked.registers.specials :=
      congrArg (fun machine => machine.registers.specials) boxes.bare
    have filled : after.heap.get? (.object slot) = some { Reply.wordNumber
        asked.registers.specials word with hash := asked.heap.advanceHash.currentHash } :=
      boxes.filled
    simp only [Machine.number?, filled, Option.bind_some, specials, Reply.wordNumber,
      HeapObject.bytes?, Body.bytes?, if_pos]
    rw [Option.filter_some, if_pos (by rfl), Option.map_some, bytesNumber_littleEndian]
  · exact .inr (.inl ⟨word, rfl, large, capacity, after, refused⟩)

/-- Reading a slot and putting the answer in place of the operands. -/
theorem readElement_finds {part : IndexedPart} {owner : HeapObject} {place : Nat}
    (alike : found.Alike asked) (consistent : asked.heap.Consistent)
    (stack : asked.heap.fetch asked.registers.activeContext (asked.registers.sp - 2 + 1)
      = .ok operand)
    (here : asked.heap.get? part.object = some owner) (isOf : part.IsOf owner.body)
    (held : owner.body.datum? (part.fixed + place) = some datum) :
    (do succeed 1 (← Reply.readElement part place)).FindsIn asked found part.kind datum := by
  have answers {answer : Value} (shows : ∀ after, asked.Shows after part.kind datum answer)
      (read : Reply.readElement part place found = .ok answer found) :
      (do succeed 1 (← Reply.readElement part place)).FindsIn asked found part.kind datum := by
    rcases succeed_answers alike stack with ⟨after, ended, answers⟩
    exact .inl ⟨answer, after, (bind_ok read).trans ended, answers, shows after⟩
  have there : found.heap.get? part.object = some owner := alike.heap ▸ here
  have holds := isOf.holds held
  generalize known : part.kind = kind at holds answers
  cases holds with
  | value content =>
    refine answers (fun _ => .value content) ?_
    rw [Reply.readElement, known]
    exact fetch_held there held
  | word content =>
    cases small : Value.ofInt? content.toNat with
    | none => exact known ▸ readElement_finds_large alike consistent stack here known held small
    | some value =>
      refine answers (fun _ => .number (Machine.number?_of_ofInt? small)) ?_
      rw [Reply.readElement, known]
      refine (bind_ok (wordAt_held there held)).trans ?_
      rw [wordObject, small]
      rfl
  | byte content =>
    refine answers (fun _ => .byte content) ?_
    rw [Reply.readElement, known]
    exact bind_ok (byteAt_held there held)
  | char content =>
    have read : Reply.readElement part place found
        = fetch asked.registers.specials.characterTable content.toNat found := by
      rw [Reply.readElement, known, ← alike.specials]
      exact (bind_ok getRegisters_apply).trans (bind_ok (byteAt_held there held))
    cases entry : asked.heap.fetch asked.registers.specials.characterTable content.toNat with
    | ok answer =>
      refine answers (fun _ => .character entry) (read.trans (fetch_ok ?_))
      rw [alike.heap, entry]
    | error error =>
      refine .inr (.inr ⟨content, error, found, rfl, rfl, entry, bind_error (read.trans ?_)⟩)
      refine fetch_error ?_
      rw [alike.heap, entry]

end Run

/-! ## The primitive -/

namespace Reply

theorem place?_eq_some_iff {index : Value} {size place : Nat} :
    place? index size = some place ↔ index.int? = some ((place : Int) + 1) ∧ place < size := by
  cases index with
  | object slot => simp [place?, Value.nat?, Value.int?]
  | small n =>
    have isNumber : (Value.small n).int? = some ((place : Int) + 1) ↔ n.val = place + 1 :=
      Option.some_inj
    rw [isNumber]
    by_cases positive : 0 ≤ n.val
    · simp only [place?, Value.nat?, if_pos positive, Option.filter_some, decide_eq_true_eq]
      split
      · simp only [Option.map_some, Option.some.injEq]
        omega
      · simp only [Option.map_none, reduceCtorEq, false_iff]
        omega
    · simp only [place?, Value.nat?, if_neg positive, Option.filter_none, Option.map_none,
        reduceCtorEq, false_iff]
      omega

/-- Different indexes stand for different places. -/
theorem place?_inj {index other : Value} {size place : Nat}
    (known : place? index size = some place) (again : place? other size = some place) :
    other = index := by
  have first := (place?_eq_some_iff.mp known).1
  have second := (place?_eq_some_iff.mp again).1
  cases index with
  | object slot => cases first
  | small n =>
    cases other with
    | object slot => cases second
    | small m =>
      exact congrArg Value.small (SmallInt.ext (Option.some.inj (second.trans first.symm)))

end Reply

namespace Machine

/-- What an element of a part is. -/
def elementAt? (machine : Machine) (part : IndexedPart) (index : Value) : Option Datum :=
  (Reply.place? index part.size).bind fun place =>
    (machine.heap.get? part.object).bind fun owner => owner.body.datum? (part.fixed + place)

end Machine

namespace Reply

open Run

variable {asked : Machine} {receiver index selector : Value} {chars : Bool} {part : IndexedPart}

/-- The primitive answers for the element at the index. -/
theorem elementAt_finds (operands : asked.Operands [receiver, index])
    (consistent : asked.heap.Consistent) (found : asked.part? receiver chars = some part)
    (fetched : asked.heap.fetch asked.registers.specials.specialSelectors
      (CommonMessage.atIndex.index * 2) = .ok selector) :
    (elementAt chars 1).Finds asked part.kind (asked.elementAt? part index) := by
  obtain rfl := Machine.object_of_part? found
  rcases Machine.part?_eq_some_iff.mp found with ⟨owner, format, here, described, isPart⟩
  have isOf := IndexedPart.isOf_of_ofBody? isPart
  have onReceiver : asked.Operand 1 part.object := operands.operand (show 0 < 2 by decide)
  have onIndex : asked.Operand 0 index := operands.operand (show 1 < 2 by decide)
  cases inside : place? index part.size with
  | none =>
    rw [Machine.elementAt?, inside, Option.bind_none]
    refine (bind_ok (receiverOf_ok onReceiver)).trans ((bind_ok (indexedPart_apply
      (Machine.isDescribed_of_part? found))).trans ?_)
    rw [found]
    refine (bind_ok (argument_ok (by decide) onIndex)).trans ?_
    rw [inside]
    rfl
  | some place =>
    rcases owner.body.exists_datum? (isOf.inside (place?_eq_some_iff.mp inside).2) with
      ⟨datum, held⟩
    have stack : asked.heap.fetch asked.registers.activeContext (asked.registers.sp - 2 + 1)
        = .ok part.object := by
      have depth : 2 ≤ asked.registers.sp := operands.depth
      rw [show asked.registers.sp - 2 + 1 = asked.registers.sp - 1 by omega]
      exact onReceiver.2
    rw [Machine.elementAt?, inside, Option.bind_some, here, Option.bind_some, held]
    rcases elementAt_reads (operand_eq_ok onReceiver) (operand_eq_ok onIndex) here described
      isPart inside fetched with ⟨later, alike, same⟩
    exact (readElement_finds alike consistent stack here isOf held).of_eq same

end Reply

/-- The number of the primitive for an access, which strings have their own for. -/
def Access.number (chars : Bool) : Access → Nat
  | .read => if chars then 63 else 60
  | .write => if chars then 64 else 61

theorem Access.ofNumber?_number (chars : Bool) (access : Access) :
    Primitive.ofNumber? (access.number chars) = some (access.primitive chars) := by
  cases access <;> cases chars <;> rfl

namespace Run

open Reply

variable {asked : Machine} {receiver index selector : Value} {chars : Bool} {part : IndexedPart}

/-- What `at:` comes to. -/
theorem respond_finds (send : Sender) (operands : asked.Operands [receiver, index])
    (count : asked.registers.argumentCount = 1)
    (consistent : asked.heap.Consistent) (found : asked.part? receiver chars = some part)
    (fetched : asked.heap.fetch asked.registers.specials.specialSelectors
      (CommonMessage.atIndex.index * 2) = .ok selector) :
    (respond send (Access.read.number chars)).Finds asked part.kind
      (asked.elementAt? part index) := by
  have known := Access.ofNumber?_number chars .read
  have responds := @respond_apply asked _ _ send known
  rw [count] at responds
  have finds := elementAt_finds operands consistent found fetched
  cases element : asked.elementAt? part index with
  | none =>
    rw [element] at finds
    exact responds.trans (bind_ok finds)
  | some datum =>
    rw [element] at finds
    refine FindsIn.of_eq ?_ responds
    exact finds.bind fun _ => rfl

end Run

end Smalltalk
