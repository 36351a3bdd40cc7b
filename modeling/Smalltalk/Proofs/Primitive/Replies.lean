import Smalltalk.Proofs.Frame.Rests

namespace Smalltalk

/-! A primitive works out its reply while the frame rests, and what it does to the stack
comes last: it puts an answer in place of the receiver and the arguments, or drops the
arguments, so that the receiver is the answer, or leaves everything where it is. -/

namespace Machine

/-- An answer takes the place of a receiver and its arguments. -/
structure Puts (count : Nat) (between : Machine) (answer : Value) (after : Machine) : Prop where
  held : after.heap.fetch after.registers.activeContext after.registers.sp = .ok answer
  changed : after = { between with
    heap := between.heap.setField between.registers.activeContext
      (between.registers.sp - (count + 1) + 1) answer
    registers.sp := between.registers.sp - (count + 1) + 1 }

/-- Something is answered in place of a receiver and its arguments. -/
def Yields (count : Nat) (between after : Machine) : Prop :=
  ∃ answer, Puts count between answer after

/-- The arguments are dropped, and the receiver remains. -/
def Drops (count : Nat) (between after : Machine) : Prop :=
  after = { between with registers.sp := between.registers.sp - count }

/-- Neither the arguments nor the receiver may be written to without writing to the frame
only if they are the active context. -/
structure Harmless (start : Machine) (bottom count : Nat) : Prop where
  receiver : start.heap.fetch start.registers.activeContext (start.registers.sp - count)
    = .ok start.registers.activeContext → bottom < ContextField.frame
  array : start.Clear bottom start.registers.specials.array
  place : bottom < ContextField.frame ∨
    ContextField.frame ≤ start.registers.sp - count ∧ start.registers.sp - count ≤ bottom

end Machine

open Machine

namespace Run

variable {α β : Type} {start : Machine} {bottom count : Nat} {ends : Machine → Machine → Prop}

/-- The frame rests while the reply is worked out, and then the stack is changed in a way. -/
def Replies (start : Machine) (bottom : Nat) (ends : Machine → Machine → Prop) (run : Run Bool) :
    Prop :=
  ∀ machine, start.Rests bottom machine → run.Ensures machine fun succeeded after =>
    (succeeded = false → start.Rests bottom after) ∧
      (succeeded = true → ∃ between, start.Rests bottom between ∧ ends between after)

theorem Maintains.bindReplies {run : Run α} {good : α → Prop} {next : α → Run Bool}
    (first : Maintains (start.Rests bottom) run good)
    (second : ∀ result, good result → Replies start bottom ends (next result)) :
    Replies start bottom ends (run >>= next) :=
  fun machine rests => (first machine rests).bind fun result after ended =>
    second result ended.2 after ended.1

namespace Replies

@[grind ←]
theorem bind {run : Run α} {next : α → Run Bool} (first : Rested start bottom run)
    (second : ∀ result, Replies start bottom ends (next result)) :
    Replies start bottom ends (run >>= next) :=
  Maintains.bindReplies first fun result _ => second result

@[grind ←]
theorem andThen {run : Run Unit} {next : Unit → Run Bool} (first : Rested start bottom run)
    (second : Replies start bottom ends (next ())) : Replies start bottom ends (run >>= next) :=
  bind first fun _ => second

@[grind ←]
theorem refuse : Replies start bottom ends (Pure.pure false) :=
  fun _ rests => .pure ⟨fun _ => rests, nofun⟩

theorem ite {condition : Prop} [Decidable condition] {first second : Run Bool}
    (yes : condition → Replies start bottom ends first)
    (no : ¬ condition → Replies start bottom ends second) :
    Replies start bottom ends (if condition then first else second) := by
  split
  · exact yes ‹_›
  · exact no ‹_›

@[grind ←]
theorem leave : Replies start bottom Eq (Pure.pure true) :=
  fun machine rests => .pure ⟨nofun, fun _ => ⟨machine, rests, rfl⟩⟩

@[grind ←]
theorem dropThen : Replies start bottom (Drops count) (drop count >>= fun _ => Pure.pure true) :=
  fun machine rests => (ensures_drop machine count).bind <| by
    rintro _ _ rfl
    exact .pure ⟨nofun, fun _ => ⟨machine, rests, rfl⟩⟩

end Replies

@[grind ←]
theorem succeed_replies {answer : Value} :
    Replies start bottom (Yields count) (succeed count answer) :=
  fun machine rests => (ensures_replace machine (count + 1) answer).bind <| by
    rintro _ _ ⟨held, rfl⟩
    exact .pure ⟨nofun, fun _ => ⟨machine, rests, answer, held, rfl⟩⟩

/-! ## Helpers -/

@[grind ←]
theorem receiverOf_rests : Rested start bottom (receiverOf count) := operand_rests

/-- The receiver is the one of the start. -/
theorem receiverOf_clear (harmless : start.Harmless bottom count) :
    Maintains (start.Rests bottom) (receiverOf count) (start.Clear bottom) :=
  fun machine rests => (ensures_operand machine count).mono <| by
    rintro value _ ⟨found, rfl⟩
    refine ⟨rests, ?_⟩
    rintro rfl
    rcases harmless.place with low | ⟨framed, inside⟩
    · exact low
    · exact harmless.receiver (rests.operand_eq found framed inside)

@[grind ←]
theorem argument_rests {index : Nat} : Rested start bottom (argument count index) := by
  grind [argument]

@[grind ←]
theorem booleanObject_rests {value : Bool} : Rested start bottom (booleanObject value) := by
  grind [booleanObject]

@[grind ←]
theorem wordOf_rests {value : Value} : Rested start bottom (wordOf value) := by
  cases value <;> grind [wordOf]

@[grind ←]
theorem wordObject_rests {word : UInt32} : Rested start bottom (wordObject word) := by
  grind [wordObject]

@[grind ←]
theorem makePoint_rests {x y : Value} : Rested start bottom (makePoint x y) := by
  grind [makePoint]

end Run

namespace Reply

open Run

variable {start : Machine} {bottom count : Nat}

/-! ## Arithmetic -/

@[grind ←]
theorem integerOperands_rests : Rested start bottom (integerOperands count) := by
  grind [integerOperands]

theorem integerOperation_replies {operation : IntegerOperation} :
    Replies start bottom (Yields count) (integerOperation operation count) := by
  grind [integerOperation]

theorem integerComparison_replies {comparison : Comparison} :
    Replies start bottom (Yields count) (integerComparison comparison count) := by
  grind [integerComparison]

theorem pointOf_replies : Replies start bottom (Yields count) (pointOf count) := by
  grind [pointOf]

@[grind ←]
theorem floatOf_rests {value : Value} : Rested start bottom (floatOf value) := by
  cases value <;> grind [floatOf]

@[grind ←]
theorem newFloat_rests {bits : UInt64} : Rested start bottom (newFloat bits) := by
  grind [newFloat]

@[grind ←]
theorem floatOperands_rests : Rested start bottom (floatOperands count) := by
  grind [floatOperands]

@[grind ←]
theorem floatOperation_replies {operation : FloatOperation} :
    Replies start bottom (Yields count) (floatOperation operation count) := by
  grind [floatOperation]

theorem floatDivision_replies : Replies start bottom (Yields count) (floatDivision count) := by
  grind [floatDivision]

theorem floatComparison_replies {comparison : Comparison} :
    Replies start bottom (Yields count) (floatComparison comparison count) := by
  grind [floatComparison]

theorem asFloat_replies : Replies start bottom (Yields count) (asFloat count) := by
  grind [asFloat]

theorem truncated_replies : Replies start bottom (Yields count) (truncated count) := by
  grind [truncated]

/-! ## Objects -/

@[grind ←]
theorem classFormat?_rests {species : Value} : Rested start bottom (classFormat? species) := by
  grind [classFormat?]

@[grind ←]
theorem instantiate_rests {species : Value} {size : Nat} :
    Rested start bottom (Reply.instantiate species size) := by
  grind [Reply.instantiate]

theorem basicNew_replies : Replies start bottom (Yields count) (basicNew count) := by
  grind [basicNew]

theorem basicNewWithSize_replies :
    Replies start bottom (Yields count) (basicNewWithSize count) := by
  refine receiverOf_rests.bindReplies fun species _ => ?_
  refine argument_rests.bindReplies fun size _ => ?_
  cases size.nat? <;> grind

theorem newMethod_replies : Replies start bottom (Yields count) (Reply.newMethod count) := by
  refine .ite (fun _ => .refuse) fun _ => receiverOf_rests.bindReplies fun species _ => ?_
  refine argument_rests.bindReplies fun header _ => argument_rests.bindReplies fun size _ => ?_
  split <;> grind

theorem copy_replies : Replies start bottom (Yields count) (Reply.copy count) := by
  grind [Reply.copy]

@[grind ←]
theorem nextFrom_rests {first : Nat} {species : Option Value} :
    Rested start bottom (nextFrom first species) := by
  refine modifyGet_rests fun machine rests => ?_
  dsimp only [Heap.nextInstance]
  split
  · exact rests
  · exact rests.withHeap (rests.consistent.transfer rfl rfl (fun _ => .rfl) fun _ empty => empty)
      (rests.slots.of_pointers rfl)

theorem someInstance_replies : Replies start bottom (Yields count) (someInstance count) := by
  grind [someInstance]

theorem nextInstance_replies :
    Replies start bottom (Yields count) (Reply.nextInstance count) := by
  refine receiverOf_rests.bindReplies fun receiver _ => .ite (fun _ => .refuse) fun _ => ?_
  refine classOf_rests.bindReplies fun species _ => getHeap_rests.bindReplies fun heap _ => ?_
  cases heap.indexOf? receiver with
  | none => exact .refuse
  | some index =>
    refine nextFrom_rests.bindReplies fun next _ => ?_
    cases next <;> grind

theorem someObject_replies : Replies start bottom (Yields count) (someObject count) := by
  grind [someObject]

theorem nextObject_replies : Replies start bottom (Yields count) (nextObject count) := by
  refine receiverOf_rests.bindReplies fun receiver _ => getHeap_rests.bindReplies fun heap _ => ?_
  cases heap.indexOf? receiver with
  | none => exact succeed_replies
  | some index =>
    refine nextFrom_rests.bindReplies fun next _ => ?_
    cases next <;> grind

theorem identityHash_replies : Replies start bottom (Yields count) (identityHash count) := by
  grind [identityHash]

/-! ## Devices -/

theorem beCursor_replies : Replies start bottom (Drops count) (beCursor count) := by
  refine .ite (fun _ => .refuse) fun _ => getHeap_rests.bindReplies fun heap _ => ?_
  refine receiverOf_rests.bindReplies fun receiver _ => ?_
  cases bitmap? heap receiver with
  | none => exact .refuse
  | some shape => split <;> grind

@[grind ←]
theorem showBitmap_rests {bitmap : Bitmap} : Rested start bottom (showBitmap bitmap) :=
  modifyDevices_rests fun _ => rfl

theorem beDisplay_replies (array : start.Clear bottom start.registers.specials.array) :
    Replies start bottom (Drops count) (beDisplay count) := by
  refine receiverOf_rests.bindReplies fun form _ => getHeap_rests.bindReplies fun heap _ => ?_
  cases bitmap? heap form with
  | none => exact .refuse
  | some bitmap =>
    refine .andThen showBitmap_rests (specials_rests.bindReplies fun registers same => ?_)
    rw [same]
    exact .andThen (store_rests array) .dropThen

theorem forceDisplay_replies : Replies start bottom (Drops count) (forceDisplay count) := by
  grind [forceDisplay]

theorem screenSize_replies : Replies start bottom (Yields count) (screenSize count) := by
  grind [screenSize]

theorem mousePoint_replies : Replies start bottom (Yields count) (mousePoint count) := by
  grind [mousePoint]

theorem setMousePoint_replies : Replies start bottom (Drops count) (setMousePoint count) := by
  grind [setMousePoint]

theorem mouseButtons_replies : Replies start bottom (Yields count) (mouseButtons count) := by
  grind [mouseButtons]

@[grind ←]
theorem keyObject_rests {key : Option UInt32} : Rested start bottom (keyObject key) := by
  cases key <;> grind [keyObject]

theorem nextKey_replies : Replies start bottom (Yields count) (nextKey count) := by
  refine .bind (modifyGet_rests fun machine rests => rests.of_same rfl rfl rfl rfl rfl) fun key => ?_
  grind

theorem peekKey_replies : Replies start bottom (Yields count) (peekKey count) := by
  grind [peekKey]

/-! ## Blocks and processes -/

/-- A new block is not the active context. -/
theorem blockCopy_replies : Replies start bottom (Yields count) (blockCopy count) := by
  refine .ite (fun _ => .refuse) fun _ => operand_rests.bindReplies fun context _ => ?_
  refine operand_rests.bindReplies fun argumentCount _ => get_rests.bindReplies fun machine _ => ?_
  refine .ite (fun _ => .refuse) fun _ => homeOf_rests.bindReplies fun homeContext _ => ?_
  refine .andThen (modifyRegisters_rests fun _ => rfl) ?_
  refine getRegisters_rests.bindReplies fun registers _ => getHeap_rests.bindReplies fun heap _ => ?_
  refine registerApart_rests.bindReplies fun block apart => ?_
  have clear : start.Clear bottom block := fun same => absurd same apart
  refine encodePc_rests.bindReplies fun initialPc _ => ?_
  grind

theorem relinquish_replies : Replies start bottom (Drops count) (relinquish count) := by
  grind [relinquish]

/-! ## Caches, identity and memory -/

theorem flushCaches_replies : Replies start bottom Eq flushCaches := by
  grind [flushCaches]

theorem flushMethod_replies : Replies start bottom Eq (flushMethod count) := by
  grind [flushMethod]

theorem flushSelector_replies : Replies start bottom Eq (flushSelector count) := by
  grind [flushSelector]

theorem identical_replies : Replies start bottom (Yields count) (Reply.identical count) := by
  grind [Reply.identical]

theorem species_replies : Replies start bottom (Yields count) (Reply.species count) := by
  grind [Reply.species]

theorem specialObjectsArray_replies :
    Replies start bottom (Yields count) (specialObjectsArray count) := by
  grind [specialObjectsArray]

@[grind ←]
theorem slotsLeft_replies : Replies start bottom (Yields count) (Reply.slotsLeft count) := by
  grind [Reply.slotsLeft]

theorem fullCollection_replies :
    Replies start bottom (Yields count) (fullCollection count) :=
  .andThen (collect_rests fun _ => Rooted.survives_fullCollect) slotsLeft_replies

theorem partialCollection_replies :
    Replies start bottom (Yields count) (partialCollection count) :=
  .andThen (collect_rests fun _ => Rooted.survives_partialCollect) slotsLeft_replies

@[grind ←]
theorem clock_rests : Rested start bottom Run.millisecondClock := by
  grind [Run.millisecondClock]

theorem millisecondClock_replies :
    Replies start bottom (Yields count) (Reply.millisecondClock count) := by
  grind [Reply.millisecondClock]

theorem secondsClock_replies : Replies start bottom (Yields count) (secondsClock count) := by
  grind [secondsClock]

theorem signalAt_replies (array : start.Clear bottom start.registers.specials.array) :
    Replies start bottom (Drops count) (signalAt count) := by
  refine .ite (fun _ => .refuse) fun _ => argument_rests.bindReplies fun semaphore _ => ?_
  refine argument_rests.bindReplies fun tick _ => ?_
  cases tick.int? with
  | none => exact .refuse
  | some tick =>
    refine .ite (fun _ => .refuse) fun _ => specials_rests.bindReplies fun registers same => ?_
    rw [same]
    refine .andThen (store_rests array) ?_
    grind

theorem quit_replies : Replies start bottom Eq Reply.quit := by
  grind [Reply.quit]

/-! ## Elements -/

/-- An indexable part is one of the object that it was asked for. -/
theorem indexedPart_rests {object : Value} {chars : Bool} :
    Maintains (start.Rests bottom) (indexedPart object chars) fun part =>
      ∀ found, part = some found → found.object = object := by
  refine .ite (fun _ => .pure (by simp)) fun _ => Maintains.bind classOf_rests fun species _ => ?_
  refine Maintains.bind classFormat_rests fun format _ => ?_
  refine .ite (fun _ => .pure (by simp)) fun _ => Maintains.bind object_rests fun owner _ => ?_
  cases owner.body with
  | pointers fields => exact .pure (by cases chars <;> simp)
  | words data => exact .pure (by cases chars <;> simp)
  | bytes data => exact .pure (by simp)
  | method literals bytecode => exact .pure (by simp)
  | float bits => exact .pure (by simp)

@[grind ←]
theorem byteAt_rests {object : Value} {slot : Nat} : Rested start bottom (byteAt object slot) := by
  grind [byteAt]

@[grind ←]
theorem wordAt_rests {object : Value} {slot : Nat} : Rested start bottom (wordAt object slot) := by
  grind [wordAt]

@[grind ←]
theorem readElement_rests {part : IndexedPart} {place : Nat} :
    Rested start bottom (readElement part place) := by
  grind [readElement]

@[grind ←]
theorem setByte_rests {object : Value} {slot : Nat} {byte : UInt8} :
    Rested start bottom (setByte object slot byte) := by
  have write : Rested start bottom (modifyHeap
      (·.updateBody object (·.mapBytes (·.setIfInBounds slot byte)))) :=
    modifyRaw_rests fun body => body.pointers?_mapBytes _
  grind [setByte]

@[grind ←]
theorem setWord_rests {object : Value} {slot : Nat} {word : UInt32} :
    Rested start bottom (setWord object slot word) := by
  have write : Rested start bottom (modifyHeap
      (·.updateBody object (·.mapWords (·.setIfInBounds slot word)))) :=
    modifyRaw_rests fun body => body.pointers?_mapWords _
  grind [setWord]

@[grind ←]
theorem characterCode_rests {value : Value} : Rested start bottom (characterCode value) := by
  grind [characterCode]

theorem writeElement_rests {part : IndexedPart} {place : Nat} {value : Value}
    (clear : start.Clear bottom part.object) :
    Rested start bottom (writeElement part place value) := by
  grind [writeElement]

@[grind ←]
theorem isCacheable_rests {receiver : Value} {message : CommonMessage} :
    Rested start bottom (isCacheable receiver message) := by
  grind [isCacheable]

@[grind ←]
theorem rememberPart_rests {part : IndexedPart} {access : Access} :
    Rested start bottom (rememberPart part access) :=
  modify_rests (fun _ => rfl) (fun _ => rfl) (fun _ => rfl) (fun _ => rfl) fun _ => rfl

theorem elementAt_replies {chars : Bool} :
    Replies start bottom (Yields count) (elementAt chars count) := by
  refine .ite (fun _ => .refuse) fun _ => receiverOf_rests.bindReplies fun receiver _ => ?_
  refine indexedPart_rests.bindReplies fun part _ => ?_
  cases part with
  | none => exact .refuse
  | some part => grind

theorem setElementAt_replies {chars : Bool} (harmless : start.Harmless bottom count) :
    Replies start bottom (Yields count) (setElementAt chars count) := by
  refine .ite (fun _ => .refuse) fun _ => (receiverOf_clear harmless).bindReplies fun receiver clear => ?_
  refine indexedPart_rests.bindReplies fun part own => ?_
  cases part with
  | none => exact .refuse
  | some part =>
    have written {place : Nat} {value : Value} :
        Rested start bottom (writeElement part place value) :=
      writeElement_rests (own part rfl ▸ clear)
    grind

@[grind ←]
theorem rememberedPart_rests {object : Value} {access : Access} :
    Rested start bottom (rememberedPart object access) := by
  grind [rememberedPart]

theorem sizeOf_replies : Replies start bottom (Yields count) (Reply.sizeOf count) := by
  refine receiverOf_rests.bindReplies fun receiver _ => indexedPart_rests.bindReplies fun part _ => ?_
  cases part <;> grind

@[grind ←]
theorem literalsOf_rests {receiver : Value} : Rested start bottom (literalsOf receiver) := by
  grind [literalsOf]

@[grind ←]
theorem fieldAt_replies {size : Nat} : Replies start bottom (Yields count) (fieldAt size count) := by
  grind [fieldAt]

theorem setFieldAt_replies {size : Nat} (harmless : start.Harmless bottom count) :
    Replies start bottom (Yields count) (setFieldAt size count) := by
  refine argument_rests.bindReplies fun index _ => ?_
  cases place? index size with
  | none => exact .refuse
  | some place =>
    refine argument_rests.bindReplies fun value _ => ?_
    exact (receiverOf_clear harmless).bindReplies fun receiver clear =>
      .andThen (store_rests clear) succeed_replies

theorem literalAt_replies : Replies start bottom (Yields count) (literalAt count) := by
  grind [literalAt]

theorem setLiteralAt_replies (harmless : start.Harmless bottom count) :
    Replies start bottom (Yields count) (setLiteralAt count) := by
  have := @setFieldAt_replies start bottom count
  grind [setLiteralAt]

theorem instanceVariableAt_replies :
    Replies start bottom (Yields count) (instanceVariableAt count) := by
  grind [instanceVariableAt]

theorem setInstanceVariableAt_replies (harmless : start.Harmless bottom count) :
    Replies start bottom (Yields count) (setInstanceVariableAt count) := by
  have := @setFieldAt_replies start bottom count
  grind [setInstanceVariableAt]

theorem replaceRange_rests {β : Type} {part : Body → Option (Array β)}
    {change : (Array β → Array β) → Body → Body} {target source : Value}
    {first origin length : Nat}
    (edited : ∀ machine edit, start.Rests bottom machine →
      (∀ object old, machine.heap.get? target = some object → part object.body = some old →
        (edit old).size = old.size) →
      start.Rests bottom { machine with heap := machine.heap.updateBody target (change edit) }) :
    Rested start bottom (replaceRange part change target source first origin length) := by
  intro machine rests
  refine (ensures_readHeap machine _).bindTo fun owner _ => ?_
  refine (ensures_readHeap machine _).bindTo fun other found => ?_
  cases part owner.body with
  | none => exact .pure ⟨rests, trivial⟩
  | some elements =>
    cases held : part other.body with
    | none => exact .pure ⟨rests, trivial⟩
    | some old =>
      dsimp only
      split
      · exact .bind .throw fun _ _ absurd => absurd
      · rename_i inside
        refine (ensures_modifyHeap machine _).mono ?_
        rintro _ _ rfl
        refine ⟨edited machine _ rests fun object data here stored => ?_, trivial⟩
        cases (Heap.object_eq_ok_iff.mp found).symm.trans here
        cases held.symm.trans stored
        exact size_copyRange (by omega) (by omega)

/-- What is raw lies in no frame. -/
theorem replaceRaw_rests {β : Type} {part : Body → Option (Array β)}
    {change : (Array β → Array β) → Body → Body} {target source : Value}
    {first origin length : Nat} (raw : ∀ edit body, (change edit body).pointers? = body.pointers?) :
    Rested start bottom (replaceRange part change target source first origin length) :=
  replaceRange_rests fun machine edit rests _ =>
    ((modifyRaw_rests (raw edit)) machine rests _ _ rfl).1

theorem replaceFromTo_replies (harmless : start.Harmless bottom count) :
    Replies start bottom (Drops count) (replaceFromTo count) := by
  refine .ite (fun _ => .refuse) fun _ => (receiverOf_clear harmless).bindReplies
    fun receiver clear => ?_
  refine argument_rests.bindReplies fun replacement _ => argument_rests.bindReplies fun first _ => ?_
  refine argument_rests.bindReplies fun stop _ => argument_rests.bindReplies fun origin _ => ?_
  have values {first origin length : Nat} : Rested start bottom
      (replaceRange Body.pointers? Body.mapPointers receiver replacement first origin length) :=
    replaceRange_rests fun machine edit rests size => rests.mapPointers clear fun fields readable => by
      rcases Heap.pointers_eq_ok_iff.mp readable with ⟨owner, here, pointers⟩
      exact size owner fields here pointers
  split
  · refine indexedPart_rests.bindReplies fun target _ => indexedPart_rests.bindReplies
      fun source _ => ?_
    split
    · refine .ite (fun _ => .refuse) fun _ => .ite (fun _ => .refuse) fun _ => ?_
      split
      · exact .andThen values .dropThen
      · exact .andThen (replaceRaw_rests fun _ body => body.pointers?_mapWords _) .dropThen
      · exact .andThen (replaceRaw_rests fun _ body => body.pointers?_mapBytes _) .dropThen
      · exact .andThen (replaceRaw_rests fun _ body => body.pointers?_mapBytes _) .dropThen
    · exact .refuse
  · exact .refuse

end Reply

end Smalltalk
