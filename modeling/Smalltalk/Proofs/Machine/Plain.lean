import Smalltalk.Proofs.Machine.Counts
import Smalltalk.Proofs.Machine.Finishes

namespace Smalltalk

/-! Most computations are of no interest to anyone who asks whether the machine comes to its
end, what its caches hold or what depends on their counts. What such a plain computation is made
of is plain as well, so that one look at each is enough for all of these questions. -/

/-- The same registers with other caches. -/
@[grind =]
def Registers.remembering (registers : Registers) (methods : MethodCache) (parts : AtCache) :
    Registers :=
  { registers with methodCache := methods, atCache := parts }

/-- The same devices and counters around other objects and caches. -/
@[grind =]
def Machine.remembering (machine : Machine) (heap : Heap) (methods : MethodCache)
    (parts : AtCache) : Machine :=
  { machine with heap, registers := machine.registers.remembering methods parts }

namespace Run

variable {α β : Type} {run : Run α}

/-- A plain computation comes to its end by itself, remembers nothing, and does not ask for the
counts of the method cache. -/
structure Plain (run : Run α) : Prop where
  finishes : Finishes run
  kept {start : Machine} : Kept start run
  ignores : IgnoresCounts run

attribute [grind ←] Plain.finishes Plain.kept Plain.ignores

namespace Plain

@[grind ←]
theorem pure {result : α} : Plain (Pure.pure result : Run α) := ⟨.pure, .pure, .pure⟩

@[grind ←]
theorem bind {next : α → Run β} (first : Plain run) (second : ∀ result, Plain (next result)) :
    Plain (run >>= next) where
  finishes := first.finishes.bind fun result => (second result).finishes
  kept := first.kept.bind fun result => (second result).kept
  ignores := first.ignores.bind fun result => (second result).ignores

@[grind ←]
theorem andThen {run : Run Unit} {next : Unit → Run β} (first : Plain run)
    (second : Plain (next ())) : Plain (run >>= next) := first.bind fun _ => second

@[grind ←]
theorem throw : Plain (MonadExcept.throw Stop.undefinedOperand : Run α) :=
  ⟨.throw, .throw, .throw⟩

@[grind ←]
theorem fail {reason : MachineError} : Plain (Run.fail reason : Run α) :=
  ⟨.fail, .fail, .fail⟩

@[grind ←]
theorem throwThen {next : β → Run α} :
    Plain ((MonadExcept.throw Stop.undefinedOperand : Run β) >>= next) :=
  ⟨.throwThen, .throwThen, .throwThen⟩

@[grind ←]
theorem failThen {reason : MachineError} {next : β → Run α} : Plain (Run.fail reason >>= next) :=
  ⟨.failThen, .failThen, .failThen⟩

@[grind ←]
theorem discard (plain : Plain run) : Plain (Functor.discard run) :=
  ⟨plain.finishes.discard, plain.kept.discard, plain.ignores.discard⟩

theorem ite {condition : Prop} [Decidable condition] {first second : Run α}
    (yes : condition → Plain first) (no : ¬ condition → Plain second) :
    Plain (if condition then first else second) := by
  split
  · exact yes ‹_›
  · exact no ‹_›

/-- The machine is asked, but not for the counts. -/
@[grind ←]
theorem bindMachine {next : Machine → Run β}
    (same : ∀ (machine : Machine) counts, next (machine.withCacheCounts counts) = next machine)
    (rest : ∀ machine, Plain (next machine)) : Plain ((get : Run Machine) >>= next) where
  finishes := get_finishes.bind fun machine => (rest machine).finishes
  kept := get_kept.bind fun machine => (rest machine).kept
  ignores := .bindMachine same fun machine => (rest machine).ignores

@[grind ←]
theorem bindRegisters {next : Registers → Run β}
    (same : ∀ (registers : Registers) counts,
      next (registers.withCacheCounts counts) = next registers)
    (rest : ∀ registers, Plain (next registers)) : Plain (getRegisters >>= next) where
  finishes := getRegisters_finishes.bind fun registers => (rest registers).finishes
  kept := getRegisters_kept.bind fun registers => (rest registers).kept
  ignores := .bindRegisters same fun registers => (rest registers).ignores

end Plain

theorem forM_plain {items : List α} {visit : α → Run Unit} (each : ∀ item, Plain (visit item)) :
    Plain (items.forM visit) := by
  induction items with
  | nil => exact .pure
  | cons first rest induction => exact (each first).bind fun _ => induction

/-! ## The machine itself -/

@[grind ←]
theorem getHeap_plain : Plain getHeap := ⟨getHeap_finishes, getHeap_kept, .getHeap⟩

@[grind ←]
theorem getNil_plain : Plain getNil := by
  grind [getNil]

/-- What is changed are neither objects nor caches, and it does not depend on them. -/
@[grind ←]
theorem modify_plain {change : Machine → Machine}
    (apart : ∀ (machine : Machine) heap methods parts,
      change (machine.remembering heap methods parts)
        = (change machine).remembering heap methods parts) : Plain (modify change : Run Unit) := by
  have same (machine : Machine) : change machine = (change machine).remembering machine.heap
      machine.registers.methodCache machine.registers.atCache := apart machine _ _ _
  refine ⟨modify_finishes, modify_kept fun machine => ?_, .modify fun machine counts => ?_⟩
  · rw [same]
    rfl
  · have counted := apart machine machine.heap { machine.registers.methodCache with counts }
      machine.registers.atCache
    refine counted.trans ?_
    rw [same]
    rfl

theorem modifyGet_plain {change : Machine → α × Machine}
    (same : ∀ machine, (change machine).2.heap.cells = machine.heap.cells ∧
      (change machine).2.heap.table = machine.heap.table ∧
      (change machine).2.heap.free = machine.heap.free ∧
      (change machine).2.registers = machine.registers)
    (alike : ∀ (machine : Machine) counts, change (machine.withCacheCounts counts)
      = ((change machine).1, (change machine).2.withCacheCounts counts)) :
    Plain (modifyGet change : Run α) :=
  ⟨modifyGet_finishes, modifyGet_kept same, .modifyGet alike⟩

@[grind ←]
theorem modifyRegisters_plain {change : Registers → Registers}
    (apart : ∀ (registers : Registers) methods parts,
      change (registers.remembering methods parts)
        = (change registers).remembering methods parts) : Plain (modifyRegisters change) :=
  modify_plain fun machine heap methods parts => congrArg
    (fun registers => { machine with heap, registers }) (apart machine.registers methods parts)

/-! ## The heap -/

@[grind ←]
theorem readHeap_plain {query : Heap → Except MemoryError α} : Plain (readHeap query) :=
  ⟨readHeap_finishes, readHeap_kept, .readHeap⟩

@[grind ←]
theorem fetch_plain {object : Value} {index : Nat} : Plain (fetch object index) := readHeap_plain

@[grind ←]
theorem fetchInt_plain {object : Value} {index : Nat} : Plain (fetchInt object index) :=
  readHeap_plain

@[grind ←]
theorem object_plain {value : Value} : Plain (object value) := readHeap_plain

@[grind ←]
theorem classFormat_plain {species : Value} : Plain (classFormat species) := readHeap_plain

@[grind ←]
theorem methodHeader_plain {method : Value} : Plain (methodHeader method) := by
  refine readHeap_plain.bind fun header => ?_
  cases header with
  | none => exact .fail
  | some header => exact .pure

@[grind ←]
theorem classOf_plain {value : Value} : Plain (classOf value) := by
  grind [classOf]

@[grind ←]
theorem specialObject_plain {index : Nat} : Plain (specialObject index) := by
  grind [specialObject]

theorem modifyBody_plain {target : Value} {change : Body → Body}
    (shape : ∀ body : Body, body.SameShape (change body)) :
    Plain (modifyHeap (·.updateBody target change)) :=
  ⟨modifyHeap_finishes, modifyBody_kept shape, .modifyHeap⟩

@[grind ←]
theorem store_plain {object : Value} {index : Nat} {value : Value} :
    Plain (store object index value) := ⟨store_finishes, store_kept, .store⟩

@[grind ←]
theorem register_plain {object : HeapObject} : Plain (register object) :=
  ⟨onHeap_finishes, register_kept, .register⟩

@[grind ←]
theorem instantiate_plain {species nil : Value} {size : Nat} :
    Plain (onHeap (HeapM.instantiate species size nil)) :=
  ⟨onHeap_finishes, instantiate_kept, .instantiate⟩

@[grind ←]
theorem copy_plain {object : Value} : Plain (onHeap (HeapM.copy object)) :=
  ⟨onHeap_finishes, copy_kept, .copy⟩

theorem collect_plain {change : Rooted Registers → Rooted Registers}
    (survives : ∀ rooted : Rooted Registers, rooted.heap.Consistent →
      rooted.Survives (change rooted))
    (alike : ∀ counts (rooted : Rooted Registers),
      change (rooted.mapRoots (·.withCacheCounts counts))
        = (change rooted).mapRoots (·.withCacheCounts counts)) : Plain (collect change) :=
  ⟨collect_finishes, collect_kept survives, .collect alike⟩

/-! ## The stack -/

@[grind ←]
theorem operand_plain {depth : Nat} : Plain (operand depth) := by
  grind [operand]

@[grind ←]
theorem top_plain : Plain top := operand_plain

@[grind ←]
theorem push_plain {value : Value} : Plain (push value) := by
  grind [push]

@[grind ←]
theorem drop_plain {count : Nat} : Plain (drop count) := by
  grind [drop]

@[grind ←]
theorem pop_plain : Plain pop := by
  grind [pop]

@[grind ←]
theorem replace_plain {count : Nat} {value : Value} : Plain (replace count value) := by
  grind [replace]

@[grind ←]
theorem copyOperands_plain {target : Value} {count index : Nat} :
    Plain (copyOperands target count index) := by
  induction count generalizing index with
  | zero => exact .pure
  | succ count induction => exact operand_plain.bind fun _ => store_plain.bind fun _ => induction

/-! ## Contexts -/

@[grind ←]
theorem encodePc_plain {method : Value} {pc : Nat} : Plain (encodePc method pc) := by
  grind [encodePc]

@[grind ←]
theorem decodePc_plain {method : Value} {encoded : Int} : Plain (decodePc method encoded) := by
  grind [decodePc]

@[grind ←]
theorem homeOf_plain {context : Value} : Plain (homeOf context) := by
  grind [homeOf]

@[grind ←]
theorem loadContext_plain {context : Value} : Plain (loadContext context) := by
  refine homeOf_plain.bind fun home => fetch_plain.bind fun method => ?_
  refine fetch_plain.bind fun receiver => fetchInt_plain.bind fun encoded => ?_
  refine fetchInt_plain.bind fun depth => decodePc_plain.bind fun pc => ?_
  exact modifyRegisters_plain fun _ _ _ => rfl

@[grind ←]
theorem saveContext_plain : Plain saveContext := by
  grind [saveContext]

@[grind ←]
theorem activate_plain {context : Value} : Plain (activate context) := by
  grind [activate]

@[grind ←]
theorem takeFreeContext_plain {large : Bool} : Plain (takeFreeContext large) where
  finishes := by
    refine getRegisters_finishes.bind fun registers => ?_
    split
    · exact .pure
    · exact get_finishes.bind fun machine => set_finishes.bind fun _ => .pure
  kept := takeFreeContext_kept
  ignores := .takeFreeContext

/-- A free context is wiped before it is used again. -/
@[grind ←]
theorem newContext_plain {large : Bool} : Plain (newContext large) := by
  refine getNil_plain.bind fun nil => takeFreeContext_plain.bind fun taken => ?_
  have wipe (context : Value) : Plain
      (modifyHeap (·.updateBody context (·.mapPointers (·.map fun _ => nil)))) :=
    modifyBody_plain fun body => .mapPointers body fun _ _ => Array.size_map
  cases taken with
  | none => grind
  | some context => exact object_plain.discard.andThen ((wipe context).andThen .pure)

@[grind ←]
theorem recycle_plain {context : Value} : Plain (recycle context) := by
  refine .bindMachine (fun _ _ => rfl) fun machine => ?_
  split
  · exact .pure
  · grind

@[grind ←]
theorem retire_plain {context : Value} : Plain (retire context) := by
  refine getNil_plain.bind fun nil => fetch_plain.discard.andThen ?_
  refine store_plain.andThen (store_plain.andThen ?_)
  refine .bindRegisters (fun _ _ => rfl) fun registers => .ite (fun _ => ?_) fun _ => .pure
  exact (modifyRegisters_plain fun _ _ _ => rfl).andThen recycle_plain

/-- A return looks for the contexts above its target from the active one on, and that walk ends
unless it goes in a circle. -/
@[grind ←]
theorem returnTo_plain {value target : Value} : Plain (returnTo value target) := by
  refine getNil_plain.bind fun nil => .ite (fun _ => .failThen) fun _ => ?_
  refine fetch_plain.bind fun pc => .ite (fun _ => .failThen) fun _ => ?_
  have leave (left : List Value) : Plain (do
      left.forM retire
      loadContext target
      push value) :=
    (forM_plain fun _ => retire_plain).andThen (loadContext_plain.andThen push_plain)
  exact
    { finishes := fun machine => by
        refine .bindOk getHeap_apply (.bindOk getRegisters_apply ?_)
        exact (contextsAbove_due (.start _ _ _)).andThen fun left => (leave left).finishes
      kept := getHeap_kept.bind fun heap => getRegisters_kept.bind fun registers =>
        contextsAbove_kept.bind fun left => (leave left).kept
      ignores := IgnoresCounts.getHeap.bind fun heap =>
        .bindRegisters (fun _ _ => rfl) fun registers =>
          IgnoresCounts.contextsAbove.bind fun left => (leave left).ignores }

/-! ## Processes -/

@[grind ←]
theorem scheduler_plain : Plain scheduler := by
  grind [scheduler]

@[grind ←]
theorem activeProcess_plain : Plain activeProcess := by
  grind [activeProcess]

@[grind ←]
theorem priorityOf_plain {process : Value} : Plain (priorityOf process) := by
  grind [priorityOf]

@[grind ←]
theorem isEmptyList_plain {list : Value} : Plain (isEmptyList list) := by
  grind [isEmptyList]

@[grind ←]
theorem addLast_plain {link list : Value} : Plain (addLast link list) := by
  grind [addLast]

@[grind ←]
theorem removeFirst_plain {list : Value} : Plain (removeFirst list) := by
  refine getNil_plain.bind fun nil => fetch_plain.bind fun first => fetch_plain.bind fun last => ?_
  split <;> grind

@[grind ←]
theorem readyLists_plain : Plain readyLists := by
  grind [readyLists]

@[grind ←]
theorem readyList_plain {priority : Nat} : Plain (readyList priority) := by
  grind [readyList]

@[grind ←]
theorem sleep_plain {process : Value} : Plain (sleep process) := by
  grind [sleep]

@[grind ←]
theorem transferTo_plain {process : Value} : Plain (transferTo process) := by
  refine getNil_plain.bind fun nil => scheduler_plain.bind fun scheduler => ?_
  refine fetch_plain.bind fun suspended => saveContext_plain.andThen ?_
  grind

@[grind ←]
theorem resume_plain {process : Value} : Plain (resume process) := by
  grind [resume]

@[grind ←]
theorem wakeFrom_plain {lists : Value} {priority : Nat} : Plain (wakeFrom lists priority) := by
  induction priority with
  | zero => exact .fail
  | succ priority induction => grind [wakeFrom]

@[grind ←]
theorem wakeHighestPriority_plain : Plain wakeHighestPriority := by
  grind [wakeHighestPriority]

@[grind ←]
theorem yieldProcess_plain : Plain yieldProcess := by
  grind [yieldProcess]

@[grind ←]
theorem signal_plain {semaphore : Value} : Plain (signal semaphore) := by
  grind [signal]

@[grind ←]
theorem wait_plain {semaphore : Value} : Plain (wait semaphore) := by
  grind [wait]

/-! ## Interrupts -/

@[grind ←]
theorem millisecondClock_plain : Plain millisecondClock := by
  grind [millisecondClock]

@[grind ←]
theorem signalSpecial_plain {index : Nat} : Plain (signalSpecial index) := by
  grind [signalSpecial]

@[grind ←]
theorem tick_plain {now : Int} : Plain (tick now) :=
  modify_plain fun _ _ _ _ => rfl

@[grind ←]
theorem takeInterrupt_plain : Plain takeInterrupt :=
  modifyGet_plain (fun _ => ⟨rfl, rfl, rfl, rfl⟩) fun _ _ => rfl

@[grind ←]
theorem takeWakeup_plain {now : Int} : Plain (takeWakeup now) :=
  modifyGet_plain (fun _ => ⟨rfl, rfl, rfl, rfl⟩) fun _ _ => rfl

@[grind ←]
theorem checkInterruptsAt_plain {now : Int} : Plain (checkInterruptsAt now) := by
  grind [checkInterruptsAt]

@[grind ←]
theorem checkInterrupts_plain : Plain checkInterrupts := by
  refine .bindMachine (fun _ _ => rfl) fun machine => ?_
  refine (modify_plain fun _ _ _ _ => rfl).andThen ?_
  grind

/-! ## Messages -/

@[grind ←]
theorem activateMethod_plain : Plain activateMethod := by
  refine .bindRegisters (fun _ _ => rfl) fun registers => methodHeader_plain.bind fun header => ?_
  refine newContext_plain.bind fun context => .bindRegisters (fun _ _ => rfl) fun registers => ?_
  refine store_plain.andThen (encodePc_plain.bind fun pc => ?_)
  refine store_plain.andThen (store_plain.andThen (store_plain.andThen ?_))
  grind

@[grind ←]
theorem packMessage_plain {lookupClass : Value} : Plain (packMessage lookupClass) := by
  refine .bindRegisters (fun _ _ => rfl) fun registers => ?_
  grind [messageHasLookupClass]

@[grind ←]
theorem failUnderstanding_plain {selector : Value} : Plain (failUnderstanding selector) := by
  grind [failUnderstanding, Machine.textOf]

@[grind ←]
theorem superclassOfMethod_plain : Plain superclassOfMethod := by
  grind [superclassOfMethod]

end Run

end Smalltalk
