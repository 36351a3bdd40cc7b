import Smalltalk.Machine.Send
import Smalltalk.Proofs.Machine.Plain

namespace Smalltalk

/-! Primitives are plain, apart from those that read and set elements, whose messages may have
an instruction of their own, and those that perform messages. -/

namespace Run

@[grind ←]
theorem receiverOf_plain {count : Nat} : Plain (receiverOf count) := operand_plain

@[grind ←]
theorem argument_plain {count index : Nat} : Plain (argument count index) := by
  grind [argument]

@[grind ←]
theorem succeed_plain {count : Nat} {result : Value} : Plain (succeed count result) := by
  grind [succeed]

@[grind ←]
theorem booleanObject_plain {value : Bool} : Plain (booleanObject value) := by
  grind [booleanObject]

@[grind ←]
theorem wordOf_plain {value : Value} : Plain (wordOf value) := by
  cases value with
  | small n => exact .pure
  | object slot =>
    refine .bindMachine (fun _ _ => rfl) fun machine => ?_
    split
    · exact .pure
    · exact .ite (fun _ => .pure) fun _ => .pure

@[grind ←]
theorem wordObject_plain {word : UInt32} : Plain (wordObject word) := by
  grind [wordObject]

@[grind ←]
theorem makePoint_plain {x y : Value} : Plain (makePoint x y) := by
  grind [makePoint]

end Run

namespace Reply

open Run

/-! ## Arithmetic -/

@[grind ←]
theorem integerOperands_plain {count : Nat} : Plain (integerOperands count) := by
  grind [integerOperands]

@[grind ←]
theorem integerOperation_plain {operation : IntegerOperation} {count : Nat} :
    Plain (integerOperation operation count) := by
  grind [integerOperation]

@[grind ←]
theorem integerComparison_plain {comparison : Comparison} {count : Nat} :
    Plain (integerComparison comparison count) := by
  grind [integerComparison]

@[grind ←]
theorem pointOf_plain {count : Nat} : Plain (pointOf count) := by
  grind [pointOf]

@[grind ←]
theorem floatOf_plain {value : Value} : Plain (floatOf value) := by
  cases value with
  | small n => exact .pure
  | object slot =>
    refine .bindMachine (fun _ _ => rfl) fun machine => ?_
    split <;> exact .pure

@[grind ←]
theorem newFloat_plain {bits : UInt64} : Plain (newFloat bits) := by
  grind [newFloat]

@[grind ←]
theorem floatOperands_plain {count : Nat} : Plain (floatOperands count) := by
  grind [floatOperands]

@[grind ←]
theorem floatOperation_plain {operation : FloatOperation} {count : Nat} :
    Plain (floatOperation operation count) := by
  grind [floatOperation]

@[grind ←]
theorem floatDivision_plain {count : Nat} : Plain (floatDivision count) := by
  grind [floatDivision]

@[grind ←]
theorem floatComparison_plain {comparison : Comparison} {count : Nat} :
    Plain (floatComparison comparison count) := by
  grind [floatComparison]

@[grind ←]
theorem asFloat_plain {count : Nat} : Plain (asFloat count) := by
  grind [asFloat]

@[grind ←]
theorem truncated_plain {count : Nat} : Plain (truncated count) := by
  grind [truncated]

/-! ## Objects -/

@[grind ←]
theorem classFormat?_plain {species : Value} : Plain (classFormat? species) := by
  grind [classFormat?]

@[grind ←]
theorem instantiate_plain {species : Value} {size : Nat} :
    Plain (Reply.instantiate species size) := by
  grind [Reply.instantiate]

@[grind ←]
theorem basicNew_plain {count : Nat} : Plain (basicNew count) := by
  grind [basicNew]

@[grind ←]
theorem basicNewWithSize_plain {count : Nat} : Plain (basicNewWithSize count) := by
  refine receiverOf_plain.bind fun species => argument_plain.bind fun size => ?_
  cases size.nat? with
  | none => exact .pure
  | some size => grind

@[grind ←]
theorem newMethod_plain {count : Nat} : Plain (Reply.newMethod count) := by
  refine .ite (fun _ => .pure) fun _ => ?_
  refine receiverOf_plain.bind fun species => argument_plain.bind fun header => ?_
  refine argument_plain.bind fun size => ?_
  split <;> grind

@[grind ←]
theorem copy_plain {count : Nat} : Plain (Reply.copy count) := by
  grind [Reply.copy]

/-- The table of objects is searched, and the place where it was left off is kept. -/
@[grind ←]
theorem nextFrom_plain {first : Nat} {species : Option Value} :
    Plain (nextFrom first species) := by
  refine modifyGet_plain (fun machine => ?_) fun _ _ => rfl
  dsimp only [Heap.nextInstance]
  split <;> exact ⟨rfl, rfl, rfl, rfl⟩

@[grind ←]
theorem someInstance_plain {count : Nat} : Plain (someInstance count) := by
  grind [someInstance]

@[grind ←]
theorem nextInstance_plain {count : Nat} : Plain (Reply.nextInstance count) := by
  refine receiverOf_plain.bind fun receiver => .ite (fun _ => .pure) fun _ => ?_
  refine classOf_plain.bind fun species => getHeap_plain.bind fun heap => ?_
  cases heap.indexOf? receiver with
  | none => exact .pure
  | some index =>
    refine nextFrom_plain.bind fun next => ?_
    cases next <;> grind

@[grind ←]
theorem someObject_plain {count : Nat} : Plain (someObject count) := by
  grind [someObject]

@[grind ←]
theorem nextObject_plain {count : Nat} : Plain (nextObject count) := by
  refine receiverOf_plain.bind fun receiver => getHeap_plain.bind fun heap => ?_
  cases heap.indexOf? receiver with
  | none => exact succeed_plain
  | some index =>
    refine nextFrom_plain.bind fun next => ?_
    cases next <;> grind

@[grind ←]
theorem identityHash_plain {count : Nat} : Plain (identityHash count) := by
  grind [identityHash]

/-! ## Devices -/

@[grind ←]
theorem beCursor_plain {count : Nat} : Plain (beCursor count) := by
  have shaped (shape : Bitmap) (mask : Option (Array UInt32)) : Plain (do
      modify fun machine => { machine with screen := machine.screen.setCursor shape.words mask }
      drop count
      return true) :=
    (modify_plain fun _ _ _ _ => rfl).andThen (drop_plain.andThen .pure)
  refine .ite (fun _ => .pure) fun _ => getHeap_plain.bind fun heap => ?_
  refine receiverOf_plain.bind fun form => ?_
  cases bitmap? heap form with
  | none => exact .pure
  | some shape =>
    refine .ite (fun _ => shaped shape none) fun _ => ?_
    refine getHeap_plain.bind fun heap => argument_plain.bind fun mask => ?_
    cases bitmap? heap mask with
    | none => exact .pure
    | some mask => exact shaped shape mask.words

@[grind ←]
theorem showBitmap_plain {bitmap : Bitmap} : Plain (showBitmap bitmap) :=
  modify_plain fun _ _ _ _ => rfl

@[grind ←]
theorem beDisplay_plain {count : Nat} : Plain (beDisplay count) := by
  refine receiverOf_plain.bind fun form => getHeap_plain.bind fun heap => ?_
  cases bitmap? heap form <;> grind

@[grind ←]
theorem forceDisplay_plain {count : Nat} : Plain (forceDisplay count) := by
  grind [forceDisplay]

@[grind ←]
theorem screenSize_plain {count : Nat} : Plain (screenSize count) :=
  .bindMachine (fun _ _ => rfl) fun _ => makePoint_plain.bind fun _ => succeed_plain

@[grind ←]
theorem mousePoint_plain {count : Nat} : Plain (mousePoint count) := by
  refine .bindMachine (fun _ _ => rfl) fun machine => ?_
  grind

@[grind ←]
theorem setMousePoint_plain {count : Nat} : Plain (setMousePoint count) := by
  refine .ite (fun _ => .pure) fun _ => getHeap_plain.bind fun heap => ?_
  refine argument_plain.bind fun point => ?_
  cases coordinates? heap point with
  | none => exact .pure
  | some place => exact (modify_plain fun _ _ _ _ => rfl).andThen (drop_plain.andThen .pure)

@[grind ←]
theorem mouseButtons_plain {count : Nat} : Plain (mouseButtons count) :=
  .bindMachine (fun _ _ => rfl) fun _ => succeed_plain

@[grind ←]
theorem keyObject_plain {key : Option UInt32} : Plain (keyObject key) := by
  cases key <;> grind [keyObject]

@[grind ←]
theorem nextKey_plain {count : Nat} : Plain (nextKey count) := by
  refine (modifyGet_plain (fun _ => ⟨rfl, rfl, rfl, rfl⟩) fun _ _ => rfl).bind fun key => ?_
  exact keyObject_plain.bind fun _ => succeed_plain

@[grind ←]
theorem peekKey_plain {count : Nat} : Plain (peekKey count) :=
  .bindMachine (fun _ _ => rfl) fun _ => keyObject_plain.bind fun _ => succeed_plain

/-! ## Blocks and processes -/

@[grind ←]
theorem blockCopy_plain {count : Nat} : Plain (blockCopy count) := by
  refine .ite (fun _ => .pure) fun _ => operand_plain.bind fun context => ?_
  refine operand_plain.bind fun argumentCount => .bindMachine (fun _ _ => rfl) fun machine => ?_
  refine .ite (fun _ => .pure) fun _ => homeOf_plain.bind fun homeContext => ?_
  refine .andThen (modifyRegisters_plain fun _ _ _ => rfl) ?_
  refine .bindRegisters (fun _ _ => rfl) fun registers => getHeap_plain.bind fun heap => ?_
  refine register_plain.bind fun block => encodePc_plain.bind fun initialPc => ?_
  grind

@[grind ←]
theorem blockValue_plain {count : Nat} : Plain (blockValue count) := by
  refine operand_plain.bind fun block => .ite (fun _ => .pure) fun _ => ?_
  refine classOf_plain.bind fun species => .bindRegisters (fun _ _ => rfl) fun registers => ?_
  refine .ite (fun _ => .pure) fun _ => fetchInt_plain.bind fun expected => ?_
  refine .ite (fun _ => .pure) fun _ => fetch_plain.bind fun caller => ?_
  refine getNil_plain.bind fun nil => .ite (fun _ => .pure) fun _ => copyOperands_plain.andThen ?_
  refine fetch_plain.bind fun initialPc => store_plain.andThen (store_plain.andThen ?_)
  refine .bindRegisters (fun _ _ => rfl) fun registers => ?_
  grind

@[grind ←]
theorem shiftDown_plain {context : Value} {count slot : Nat} :
    Plain (shiftDown context count slot) := by
  induction count generalizing slot with
  | zero => exact .pure
  | succ count induction => exact fetch_plain.bind fun _ => store_plain.andThen induction

@[grind ←]
theorem signalSemaphore_plain {count : Nat} : Plain (signalSemaphore count) := by
  grind [signalSemaphore]

@[grind ←]
theorem waitSemaphore_plain {count : Nat} : Plain (waitSemaphore count) := by
  grind [waitSemaphore]

@[grind ←]
theorem resumeProcess_plain {count : Nat} : Plain (resumeProcess count) := by
  grind [resumeProcess]

@[grind ←]
theorem suspendProcess_plain {count : Nat} : Plain (suspendProcess count) := by
  grind [suspendProcess]

@[grind ←]
theorem yieldActive_plain : Plain Reply.yieldActive := by
  grind [Reply.yieldActive]

@[grind ←]
theorem relinquish_plain {count : Nat} : Plain (relinquish count) := by
  refine .ite (fun _ => .pure) fun _ => argument_plain.bind fun time => ?_
  cases time.nat? with
  | none => exact .pure
  | some _ => exact (modify_plain fun _ _ _ _ => rfl).andThen (drop_plain.andThen .pure)

/-! ## Caches, identity and memory -/

/-- Whatever is flushed, all parts are. -/
theorem forget_plain (change : MethodCache → MethodCache)
    (methods : ∀ cache : MethodCache, ∀ entry ∈ (change cache).entries,
      entry.isVacant = false → entry ∈ cache.entries)
    (alike : ∀ (cache : MethodCache) counts,
      change { cache with counts } = { change cache with counts }) :
    Plain (modifyRegisters fun registers =>
      { registers with
        methodCache := change registers.methodCache
        atCache := registers.atCache.clear }) where
  finishes := modifyRegisters_finishes
  kept := .of_ensures fun machine consistent => (ensures_modifyRegisters machine _).mono <| by
    intro _ _ ended
    rcases ended with rfl
    exact .of_forget consistent (methods _) (AtCache.not_mem_clear _)
  ignores := .modifyRegisters fun registers counts => congrArg
    (fun methodCache => { registers with methodCache, atCache := registers.atCache.clear })
    (alike registers.methodCache counts)

@[grind ←]
theorem flushCaches_plain : Plain flushCaches := by
  refine (forget_plain .clear ?_ fun _ _ => rfl).andThen .pure
  intro _ _ member used
  rw [MethodCache.vacant_of_mem_clear member] at used
  cases used

@[grind ←]
theorem flushMethod_plain {count : Nat} : Plain (flushMethod count) := by
  refine receiverOf_plain.bind fun method => ?_
  exact (forget_plain (·.forgetMethod method)
    (fun _ _ => MethodCache.mem_entries_forget) fun _ _ => rfl).andThen .pure

@[grind ←]
theorem flushSelector_plain {count : Nat} : Plain (flushSelector count) := by
  refine receiverOf_plain.bind fun selector => ?_
  exact (forget_plain (·.forgetSelector selector)
    (fun _ _ => MethodCache.mem_entries_forget) fun _ _ => rfl).andThen .pure

@[grind ←]
theorem identical_plain {count : Nat} : Plain (Reply.identical count) := by
  grind [Reply.identical]

@[grind ←]
theorem species_plain {count : Nat} : Plain (Reply.species count) := by
  grind [Reply.species]

@[grind ←]
theorem arrayOperands_plain {count : Nat} : Plain (arrayOperands count) := by
  refine receiverOf_plain.bind fun receiver => argument_plain.bind fun argument => ?_
  refine .bindRegisters (fun _ _ => rfl) fun registers => ?_
  have elements (array : Value) : Plain (do
      if array.isSmall then return none
      if (← classOf array) ≠ registers.specials.arrayClass then return none
      return some ((← Run.object array).pointers?.getD #[]).toList) := by
    grind
  refine (elements receiver).bind fun sources => ?_
  cases sources with
  | none => exact .pure
  | some sources =>
    refine (elements argument).bind fun targets => ?_
    cases targets <;> exact .pure

/-- An exchange of identities flushes everything. -/
@[grind ←]
theorem become_plain {twoWay : Bool} {count : Nat} : Plain (Reply.become twoWay count) := by
  refine .ite (fun _ => .pure) fun _ => arrayOperands_plain.bind fun operands => ?_
  rcases operands with - | ⟨sources, targets⟩
  · exact .pure
  refine
    { finishes := ?finishes
      kept := ?kept
      ignores := fun machine counts => ?ignores }
  case finishes =>
    refine get_finishes.bind fun machine => ?_
    split
    · exact .pure
    · exact set_finishes.bind fun _ => drop_plain.finishes.bind fun _ => .pure
  case kept =>
    refine .of_ensures fun machine consistent => (ensures_get machine).bindExactly ?_
    cases changed : Rooted.become ⟨machine.heap, machine.registers⟩ sources targets twoWay with
    | error reason => exact .pure (.refl consistent)
    | ok after =>
      rcases bind_eq_ok_iff.mp changed with ⟨redirection, accepted, same⟩
      cases same
      have renamed := Heap.consistent_rename consistent redirection.apply
      refine (ensures_set machine _).bindChange fun _ => ?_
      refine (ensures_drop _ count).bindChange fun _ => ?_
      refine .pure (.of_forget renamed ?_ (AtCache.not_mem_clear _))
      intro _ member used
      rw [MethodCache.vacant_of_mem_clear member] at used
      cases used
  case ignores =>
    have same : Rooted.become ⟨(machine.withCacheCounts counts).heap,
        (machine.withCacheCounts counts).registers⟩ sources targets twoWay = _ :=
      Rooted.become_mapRoots (Registers.standsFor_withCacheCounts counts)
        ⟨machine.heap, machine.registers⟩ sources targets twoWay
    refine Ensures.bindOk get_apply ?_
    intro result after ended
    refine ⟨counts, (bind_ok get_apply).trans ?_⟩
    cases changed : Rooted.become ⟨machine.heap, machine.registers⟩ sources targets twoWay with
    | error reason | ok rooted =>
      simp only [changed] at ended same
      simp only [same]
      cases ended
      rfl

@[grind ←]
theorem specialObjectsArray_plain {count : Nat} : Plain (specialObjectsArray count) := by
  grind [specialObjectsArray]

@[grind ←]
theorem slotsLeft_plain {count : Nat} : Plain (Reply.slotsLeft count) := by
  grind [Reply.slotsLeft]

@[grind ←]
theorem fullCollection_plain {count : Nat} : Plain (fullCollection count) :=
  (collect_plain (fun _ => Rooted.survives_fullCollect) fun counts =>
    Rooted.fullCollect_mapRoots (Registers.standsFor_withCacheCounts counts)).andThen
      slotsLeft_plain

@[grind ←]
theorem partialCollection_plain {count : Nat} : Plain (partialCollection count) :=
  (collect_plain (fun _ => Rooted.survives_partialCollect) fun counts =>
    Rooted.partialCollect_mapRoots (Registers.standsFor_withCacheCounts counts)).andThen
      slotsLeft_plain

@[grind ←]
theorem millisecondClock_plain {count : Nat} : Plain (Reply.millisecondClock count) := by
  grind [Reply.millisecondClock]

@[grind ←]
theorem secondsClock_plain {count : Nat} : Plain (secondsClock count) :=
  .bindMachine (fun _ _ => rfl) fun _ => wordObject_plain.bind fun _ => succeed_plain

@[grind ←]
theorem signalAt_plain {count : Nat} : Plain (signalAt count) := by
  refine .ite (fun _ => .pure) fun _ => argument_plain.bind fun semaphore => ?_
  refine argument_plain.bind fun tick => ?_
  cases tick.int? with
  | none => exact .pure
  | some tick =>
    refine .ite (fun _ => .pure) fun _ => .bindRegisters (fun _ _ => rfl) fun registers => ?_
    refine store_plain.andThen (.andThen (modify_plain fun _ _ _ _ => rfl) ?_)
    exact drop_plain.andThen .pure

@[grind ←]
theorem quit_plain : Plain Reply.quit := (modify_plain fun _ _ _ _ => rfl).andThen .pure

/-! ## Elements -/

@[grind ←]
theorem indexedPart_plain {object : Value} {chars : Bool} : Plain (indexedPart object chars) := by
  grind [indexedPart]

@[grind ←]
theorem byteAt_plain {object : Value} {slot : Nat} : Plain (byteAt object slot) := by
  grind [byteAt]

@[grind ←]
theorem wordAt_plain {object : Value} {slot : Nat} : Plain (wordAt object slot) := by
  grind [wordAt]

@[grind ←]
theorem readElement_plain {part : IndexedPart} {place : Nat} : Plain (readElement part place) := by
  grind [readElement]

@[grind ←]
theorem setByte_plain {object : Value} {slot : Nat} {byte : UInt8} :
    Plain (setByte object slot byte) := by
  have write : Plain (modifyHeap
      (·.updateBody object (·.mapBytes (·.setIfInBounds slot byte)))) :=
    modifyBody_plain fun body => .mapBytes body fun _ _ => Array.size_setIfInBounds
  grind [setByte]

@[grind ←]
theorem setWord_plain {object : Value} {slot : Nat} {word : UInt32} :
    Plain (setWord object slot word) := by
  have write : Plain (modifyHeap
      (·.updateBody object (·.mapWords (·.setIfInBounds slot word)))) :=
    modifyBody_plain fun body => .mapWords body fun _ _ => Array.size_setIfInBounds
  grind [setWord]

@[grind ←]
theorem characterCode_plain {value : Value} : Plain (characterCode value) := by
  grind [characterCode]

@[grind ←]
theorem writeElement_plain {part : IndexedPart} {place : Nat} {value : Value} :
    Plain (writeElement part place value) := by
  grind [writeElement]

@[grind ←]
theorem isCacheable_plain {receiver : Value} {message : CommonMessage} :
    Plain (isCacheable receiver message) := by
  refine .bindRegisters (fun _ _ => rfl) fun registers => fetch_plain.bind fun selector => ?_
  refine .ite (fun _ => .pure) fun _ => classOf_plain.bind fun species => ?_
  exact .ite (fun _ => .pure) fun _ => .bindMachine (fun _ _ => rfl) fun _ => .pure

@[grind ←]
theorem rememberedPart_plain {object : Value} {access : Access} :
    Plain (rememberedPart object access) := by
  grind [rememberedPart]

/-- What was remembered is used, but nothing is added to it. -/
@[grind ←]
theorem inlineElementAt_plain : Plain inlineElementAt := by
  refine operand_plain.bind fun receiver => rememberedPart_plain.bind fun part => ?_
  cases part <;> grind

@[grind ←]
theorem inlineSetElementAt_plain : Plain inlineSetElementAt := by
  refine operand_plain.bind fun receiver => rememberedPart_plain.bind fun part => ?_
  cases part <;> grind

@[grind ←]
theorem sizeOf_plain {count : Nat} : Plain (Reply.sizeOf count) := by
  grind [Reply.sizeOf]

@[grind ←]
theorem literalsOf_plain {receiver : Value} : Plain (literalsOf receiver) := by
  grind [literalsOf]

@[grind ←]
theorem fieldAt_plain {size count : Nat} : Plain (fieldAt size count) := by
  grind [fieldAt]

@[grind ←]
theorem setFieldAt_plain {size count : Nat} : Plain (setFieldAt size count) := by
  grind [setFieldAt]

@[grind ←]
theorem literalAt_plain {count : Nat} : Plain (literalAt count) := by
  grind [literalAt]

@[grind ←]
theorem setLiteralAt_plain {count : Nat} : Plain (setLiteralAt count) := by
  grind [setLiteralAt]

@[grind ←]
theorem instanceVariableAt_plain {count : Nat} : Plain (instanceVariableAt count) := by
  grind [instanceVariableAt]

@[grind ←]
theorem setInstanceVariableAt_plain {count : Nat} : Plain (setInstanceVariableAt count) := by
  grind [setInstanceVariableAt]

/-- A range is replaced by one of the same size. -/
theorem replaceRange_plain {β : Type} {part : Body → Option (Array β)}
    {change : (Array β → Array β) → Body → Body}
    (shape : ∀ (body : Body) (edit : Array β → Array β),
      (∀ old, part body = some old → (edit old).size = old.size) →
        body.SameShape (change edit body))
    {target source : Value} {first origin count : Nat} :
    Plain (replaceRange part change target source first origin count) where
  finishes := by
    refine object_plain.finishes.bind fun owner => object_plain.finishes.bind fun other => ?_
    split
    · exact .ite (fun _ => .throwThen) fun _ => modifyHeap_finishes
    · exact .pure
  kept := by
    refine .of_ensures fun machine consistent => ?_
    refine (ensures_readHeap machine _).bindTo fun owner _ => ?_
    refine (ensures_readHeap machine _).bindTo fun other found => ?_
    cases part owner.body with
    | none => exact .pure (.refl consistent)
    | some elements =>
      cases held : part other.body with
      | none => exact .pure (.refl consistent)
      | some old =>
        dsimp only
        split
        · exact .bind .throw fun _ _ absurd => absurd
        · rename_i inside
          refine (ensures_modifyHeap machine _).mono ?_
          intro _ _ same
          rcases same with rfl
          refine .of_updateBody consistent target fun object here => shape object.body _ ?_
          intro data stored
          have same : object = other :=
            Option.some.inj (here.symm.trans (Heap.object_eq_ok_iff.mp found))
          rw [same, held] at stored
          cases stored
          exact size_copyRange (by omega) (by omega)
  ignores := by
    refine object_plain.ignores.bind fun owner => object_plain.ignores.bind fun other => ?_
    split
    · exact .ite (fun _ => .throwThen) fun _ => .modifyHeap
    · exact .pure

@[grind ←]
theorem replaceFromTo_plain {count : Nat} : Plain (replaceFromTo count) := by
  refine .ite (fun _ => .pure) fun _ => ?_
  refine receiverOf_plain.bind fun receiver => argument_plain.bind fun replacement => ?_
  refine argument_plain.bind fun first => argument_plain.bind fun stop => ?_
  refine argument_plain.bind fun origin => ?_
  split
  · refine indexedPart_plain.bind fun target => indexedPart_plain.bind fun source => ?_
    split
    · refine .ite (fun _ => .pure) fun _ => .ite (fun _ => .pure) fun _ => ?_
      split
      · exact (replaceRange_plain fun _ _ => .mapPointers _).andThen (drop_plain.andThen .pure)
      · exact (replaceRange_plain fun _ _ => .mapWords _).andThen (drop_plain.andThen .pure)
      · exact (replaceRange_plain fun _ _ => .mapBytes _).andThen (drop_plain.andThen .pure)
      · exact (replaceRange_plain fun _ _ => .mapBytes _).andThen (drop_plain.andThen .pure)
    · exact .pure
  · exact .pure

end Reply

/-- The primitives that perform messages, and those whose accesses are remembered. -/
inductive Primitive.Special : Primitive → Prop
  | elementAt (chars : Bool) : Special (.elementAt chars)
  | setElementAt (chars : Bool) : Special (.setElementAt chars)
  | perform : Special .perform
  | performWithArguments : Special .performWithArguments
  | performInSuperclass : Special .performInSuperclass

theorem Primitive.plain_or_special (send : Reply.Sender) (primitive : Primitive) (count : Nat) :
    Run.Plain (primitive.run send count) ∨ primitive.Special := by
  cases primitive with
  | elementAt chars => exact .inr (.elementAt chars)
  | setElementAt chars => exact .inr (.setElementAt chars)
  | perform => exact .inr .perform
  | performWithArguments => exact .inr .performWithArguments
  | performInSuperclass => exact .inr .performInSuperclass
  | float operation => exact .inl (by cases operation <;> grind [Primitive.run])
  | _ => exact .inl (by grind [Primitive.run])

namespace Run

/-! ## Quick primitives -/

@[grind ←]
theorem quickResult_plain {number : Nat} {receiver : Value} : Plain (quickResult number receiver) := by
  refine .bindRegisters (fun _ _ => rfl) fun registers => ?_
  dsimp only
  split <;> grind

@[grind ←]
theorem quickPrimitive_plain {number : Nat} : Plain (quickPrimitive number) := by
  refine .bindRegisters (fun _ _ => rfl) fun registers => operand_plain.bind fun receiver => ?_
  refine quickResult_plain.bind fun result => ?_
  cases result <;> grind

end Run

end Smalltalk
