import Smalltalk.Proofs.Frame.Switches
import Smalltalk.Proofs.Heap.Substitution
import Smalltalk.Proofs.Indexed.Access
import Smalltalk.Proofs.Primitive.Replies

namespace Smalltalk

/-! What the primitives that succeed do with the receiver and the arguments on the stack.
There are few ways, and which one it is depends on the primitive alone. -/

/-- What becomes of the stack and of the frame when a primitive succeeds. -/
inductive Manner where
  /-- An answer takes the place of the receiver and the arguments. -/
  | answers
  /-- The arguments are dropped. -/
  | drops
  /-- Receiver and arguments stay where they are. -/
  | leaves
  /-- They stay, and another process may go on. -/
  | passes
  /-- Nil takes their place, and another process goes on. -/
  | suspends
  /-- The receiver becomes the active context. -/
  | enters
  /-- The arguments are dropped after objects have exchanged their identities. -/
  | exchanges (twoWay : Bool)
  /-- Another message is sent. -/
  | performs
deriving DecidableEq

/-- The manner of each primitive. -/
def Primitive.manner : Primitive → Manner
  | .beCursor | .beDisplay | .forceDisplay | .setMousePoint | .replaceFromTo | .signalAt
  | .relinquish => .drops
  | .flushCaches | .flushMethod | .flushSelector | .quit => .leaves
  | .signal | .wait | .resume | .yieldActive => .passes
  | .suspend => .suspends
  | .blockValue => .enters
  | .become twoWay => .exchanges twoWay
  | .perform | .performWithArguments | .performInSuperclass => .performs
  | _ => .answers

open Machine

/-- Objects have exchanged their identities, and the stack pointer has been set. -/
def Machine.Exchanged (before : Machine) (sources targets : List Value) (twoWay : Bool) (sp : Nat)
    (after : Machine) : Prop :=
  ∃ rooted, Rooted.become ⟨before.heap, before.registers⟩ sources targets twoWay = .ok rooted ∧
    after = { before with heap := rooted.heap, registers := { rooted.roots with sp } }

/-- How a primitive of a manner leaves a machine when it succeeds. -/
def Manner.Effect (start : Machine) (bottom count : Nat) : Manner → Machine → Prop
  | answers, after => ∃ between, start.Rests bottom between ∧ Yields count between after
  | drops, after => ∃ between, start.Rests bottom between ∧ Drops count between after
  | leaves, after => start.Rests bottom after
  | passes, after => start.Rests bottom after ∨ start.Switched bottom after
  | suspends, after => ∃ between answered, start.Rests bottom between ∧
      Puts count between start.registers.specials.nil answered ∧
      answered.Switched answered.registers.sp after
  | enters, after => after.heap.Consistent ∧ after.Restored ∧
      start.heap.fetch start.registers.activeContext (start.registers.sp - count)
        = .ok after.registers.activeContext
  | exchanges twoWay, after => ∃ sources targets,
      Reply.arrayOperands count start = .ok (some (sources, targets)) start ∧
      Exchanged start sources targets twoWay (start.registers.sp - count) after
  | performs, _ => False

namespace Machine

variable {start between last after : Machine} {bottom count : Nat}

/-- An answer above `bottom` lets the frame stand. -/
theorem Puts.carries {answer : Value} (rests : start.Rests bottom between)
    (puts : Puts count between answer after)
    (above : bottom < start.registers.sp - (count + 1) + 1) :
    start.Carries bottom after ∧ after.registers.sp = start.registers.sp - (count + 1) + 1 := by
  rcases puts with ⟨held, rfl⟩
  rw [← rests.sp] at above ⊢
  refine ⟨⟨⟨?_, rests.active, rests.specials, ?_⟩, fun _ => Heap.lt_pointerCount_of_fetch held⟩, rfl⟩
  · exact Heap.consistent_update rests.consistent _ _
  · exact rests.slots.setField answer fun _ => .inr above

theorem Drops.carries (rests : start.Rests bottom between)
    (drops : Drops count between after) :
    start.Carries bottom after ∧ after.registers.sp = start.registers.sp - count := by
  subst drops
  have sp : between.registers.sp - count = start.registers.sp - count := by rw [rests.sp]
  refine ⟨Stands.carries ?_ (sp.trans_le (Nat.sub_le _ _)), sp⟩
  exact rests.toStands.of_same rfl rfl rfl

theorem Exchanged.pointerCount_eq {sources targets : List Value} {twoWay : Bool} {sp : Nat}
    (consistent : last.heap.Consistent) (exchanged : last.Exchanged sources targets twoWay sp after)
    (value : Value) : after.heap.pointerCount value = last.heap.pointerCount value := by
  rcases exchanged with ⟨rooted, accepted, rfl⟩
  rcases Rooted.become_eq_ok_iff.mp accepted with ⟨redirection, -, rfl⟩
  exact Heap.pointerCount_rename consistent.toTabled _ value

theorem Exchanged.consistent {sources targets : List Value} {twoWay : Bool} {sp : Nat}
    (consistent : last.heap.Consistent)
    (exchanged : last.Exchanged sources targets twoWay sp after) : after.heap.Consistent := by
  rcases exchanged with ⟨rooted, accepted, rfl⟩
  rcases Rooted.become_eq_ok_iff.mp accepted with ⟨redirection, -, rfl⟩
  exact Heap.consistent_rename consistent _

end Machine

namespace Run

variable {α : Type} {start : Machine} {bottom count : Nat} {manner : Manner} {run : Run Bool}

/-- A primitive that fails lets the frame rest, and one that succeeds has its effect. -/
def Effects (start : Machine) (bottom count : Nat) (manner : Manner) (run : Run Bool) : Prop :=
  run.Ensures start fun succeeded after =>
    (succeeded = false → start.Rests bottom after) ∧
      (succeeded = true → manner.Effect start bottom count after)

namespace Replies

theorem answers (replies : Replies start bottom (Yields count) run)
    (ready : start.Rests bottom start) : Effects start bottom count .answers run :=
  replies start ready

theorem drops (replies : Replies start bottom (Drops count) run)
    (ready : start.Rests bottom start) : Effects start bottom count .drops run :=
  replies start ready

theorem leaves (replies : Replies start bottom Eq run) (ready : start.Rests bottom start) :
    Effects start bottom count .leaves run :=
  (replies start ready).mono fun _ _ ended => ⟨ended.1, fun succeeded => by
    rcases ended.2 succeeded with ⟨_, rests, rfl⟩
    exact rests⟩

end Replies

/-- The machine may still be looked at before the reply. -/
theorem Rested.bindEffects {run : Run α} {next : α → Run Bool} (first : Rested start bottom run)
    (ready : start.Rests bottom start)
    (second : ∀ result machine, start.Rests bottom machine →
      (next result).Ensures machine fun succeeded after =>
        (succeeded = false → start.Rests bottom after) ∧
          (succeeded = true → manner.Effect start bottom count after)) :
    Effects start bottom count manner (run >>= next) :=
  (first start ready).bind fun result machine ended => second result machine ended.1

/-- A primitive for processes asks whether its receiver is of the right kind. -/
theorem passes_of_receiver {kind : Heap → Value → Bool} {change : Value → Run Unit}
    (passes : ∀ value, MaySwitch start bottom (change value)) (ready : start.Rests bottom start) :
    Effects start bottom count .passes (do
      let value ← receiverOf count
      if !kind (← getHeap) value then return false
      change value
      return true) := by
  refine receiverOf_rests.bindEffects ready fun value machine rests => ?_
  refine (ensures_getHeap machine).bindExactly ?_
  split
  · exact .pure ⟨fun _ => rests, nofun⟩
  · exact (passes value machine rests).bind fun _ _ passed => .pure ⟨nofun, fun _ => passed⟩

end Run

namespace Reply

open Run

variable {start : Machine} {bottom count : Nat}

theorem signalSemaphore_effects (ready : start.Rests bottom start) :
    Effects start bottom count .passes (signalSemaphore count) :=
  passes_of_receiver (fun _ => signal_maySwitch) ready

theorem waitSemaphore_effects (ready : start.Rests bottom start) :
    Effects start bottom count .passes (waitSemaphore count) :=
  passes_of_receiver (fun _ => wait_maySwitch) ready

theorem resumeProcess_effects (ready : start.Rests bottom start) :
    Effects start bottom count .passes (resumeProcess count) :=
  passes_of_receiver (fun _ => resume_maySwitch) ready

theorem yieldActive_effects (ready : start.Rests bottom start) :
    Effects start bottom count .passes Reply.yieldActive :=
  (yieldProcess_maySwitch start ready).bind fun _ _ passed => .pure ⟨nofun, fun _ => passed⟩

theorem suspendProcess_effects (ready : start.Rests bottom start) :
    Effects start bottom count .suspends (suspendProcess count) := by
  refine receiverOf_rests.bindEffects ready fun process machine rests => ?_
  refine (activeProcess_rests machine rests).bind fun active between ⟨rests, _⟩ => ?_
  split
  · exact .pure ⟨fun _ => rests, nofun⟩
  · refine (ensures_getNil between).bindExactly ?_
    rw [rests.specials]
    refine (ensures_replace between (count + 1) _).bind ?_
    rintro _ answered ⟨held, changed⟩
    have settled : answered.Rests answered.registers.sp answered := by
      refine .of_fetch ?_ held
      rw [changed]
      exact Heap.consistent_update rests.consistent _ _
    refine (wakeHighestPriority_rests answered settled).bind fun next _ ⟨resting, _⟩ => ?_
    refine (transferTo_switches resting next).bind fun _ after switched => ?_
    exact .pure ⟨nofun, fun _ => ⟨between, answered, rests, ⟨held, changed⟩, switched⟩⟩

theorem blockValue_effects (ready : start.Rests bottom start) :
    Effects start bottom count .enters (blockValue count) := by
  have consistent : (blockValue count).Ensures start fun _ after => after.heap.Consistent :=
    (blockValue_plain.kept start (.refl ready.consistent)).mono fun _ _ ended => ended.1.consistent
  suffices enters : (blockValue count).Ensures start fun succeeded after =>
      (succeeded = false → start.Rests bottom after) ∧ (succeeded = true → after.Restored ∧
        start.heap.fetch start.registers.activeContext (start.registers.sp - count)
          = .ok after.registers.activeContext) from
    (consistent.and enters).mono fun _ _ ⟨sound, refused, entered⟩ =>
      ⟨refused, fun succeeds => ⟨sound, entered succeeds⟩⟩
  refine (ensures_operand start count).bindTo fun block onStack => ?_
  split
  · exact .pure ⟨fun _ => ready, nofun⟩
  refine (classOf_rests start ready).bind fun species _ ⟨rests, _⟩ => ?_
  refine (getRegisters_rests _ rests).bind fun registers _ ⟨rests, _⟩ => ?_
  split
  · exact .pure ⟨fun _ => rests, nofun⟩
  refine (fetchInt_rests _ rests).bind fun takes _ ⟨rests, _⟩ => ?_
  split
  · exact .pure ⟨fun _ => rests, nofun⟩
  refine (fetch_rests _ rests).bind fun caller _ ⟨rests, _⟩ => ?_
  refine (getNil_rests _ rests).bind fun nil _ ⟨rests, _⟩ => ?_
  split
  · exact .pure ⟨fun _ => rests, nofun⟩
  -- Whatever is written to the block before, it is loaded in the end.
  refine .later fun _ _ => .later fun initialPc _ => .later fun _ _ => .later fun _ _ => ?_
  refine .later fun _ _ => .later fun _ _ => .later fun _ _ => ?_
  refine (activate_restores _ block).bind ?_
  rintro _ after ⟨rfl, restored⟩
  exact .pure ⟨nofun, fun _ => ⟨restored, onStack⟩⟩

/-- The elements of two arrays are only looked at. -/
theorem arrayOperands_ensures (machine : Machine) (count : Nat) :
    (arrayOperands count).Ensures machine fun operands after =>
      arrayOperands count machine = .ok operands machine ∧ after = machine := by
  have looks : (arrayOperands count).Ensures machine fun _ after => after = machine := by
    refine (ensures_operand machine _).bindTo fun receiver _ => ?_
    refine (argument_ensures machine count 0).bindChange fun argument => ?_
    refine (ensures_getRegisters machine).bindExactly ?_
    have elements (array : Value) : (do
        if array.isSmall then return none
        if (← classOf array) ≠ machine.registers.specials.arrayClass then return none
        return some ((← Run.object array).pointers?.getD #[]).toList :
          Run (Option (List Value))).Ensures machine fun _ after => after = machine := by
      split
      · exact .pure rfl
      · refine (classOf_ensures machine array).bindTo fun species _ => ?_
        split
        · exact .pure rfl
        · exact (ensures_readHeap machine _).bindTo fun _ _ => .pure rfl
    refine (elements receiver).bindChange fun sources => ?_
    cases sources with
    | none => exact .pure rfl
    | some sources =>
      refine (elements argument).bindChange fun targets => ?_
      cases targets <;> exact .pure rfl
  intro operands after ended
  cases looks operands after ended
  exact ⟨ended, rfl⟩

theorem become_effects {twoWay : Bool} (ready : start.Rests bottom start) :
    Effects start bottom count (.exchanges twoWay) (Reply.become twoWay count) := by
  unfold Reply.become
  split
  · exact .pure ⟨fun _ => ready, nofun⟩
  refine (arrayOperands_ensures start count).bindTo fun operands found => ?_
  rcases operands with - | ⟨sources, targets⟩
  · exact .pure ⟨fun _ => ready, nofun⟩
  · refine (ensures_get start).bindExactly ?_
    cases accepted : Rooted.become ⟨start.heap, start.registers⟩ sources targets twoWay with
    | error reason => exact .pure ⟨fun _ => ready, nofun⟩
    | ok rooted =>
      rcases Rooted.become_eq_ok_iff.mp accepted with ⟨redirection, -, rfl⟩
      refine (ensures_set start _).bindChange fun _ => ?_
      refine (ensures_drop _ count).bindChange fun _ => .pure ⟨nofun, fun _ => ?_⟩
      exact ⟨sources, targets, found, _, accepted, rfl⟩

end Reply

open Reply in
/-- Every primitive that performs no message has the effect of its manner. -/
theorem Primitive.run_effects {start : Machine} {bottom count : Nat}
    (ready : start.Rests bottom start) (harmless : start.Harmless bottom count) (send : Reply.Sender)
    (primitive : Primitive) (direct : primitive.manner ≠ .performs) :
    Run.Effects start bottom count primitive.manner (primitive.run send count) := by
  cases primitive with
  | integer operation => exact integerOperation_replies.answers ready
  | compareIntegers comparison => exact integerComparison_replies.answers ready
  | makePoint => exact pointOf_replies.answers ready
  | asFloat => exact asFloat_replies.answers ready
  | float operation =>
    cases operation
    case divide => exact floatDivision_replies.answers ready
    all_goals exact floatOperation_replies.answers ready
  | compareFloats comparison => exact floatComparison_replies.answers ready
  | truncated => exact truncated_replies.answers ready
  | elementAt chars => exact elementAt_replies.answers ready
  | setElementAt chars => exact (setElementAt_replies harmless).answers ready
  | size => exact sizeOf_replies.answers ready
  | literalAt => exact literalAt_replies.answers ready
  | literalAtPut => exact (setLiteralAt_replies harmless).answers ready
  | basicNew => exact basicNew_replies.answers ready
  | basicNewWithSize => exact basicNewWithSize_replies.answers ready
  | instanceVariableAt => exact instanceVariableAt_replies.answers ready
  | instanceVariableAtPut => exact (setInstanceVariableAt_replies harmless).answers ready
  | identityHash => exact identityHash_replies.answers ready
  | someInstance => exact someInstance_replies.answers ready
  | nextInstance => exact nextInstance_replies.answers ready
  | newMethod => exact newMethod_replies.answers ready
  | blockCopy => exact blockCopy_replies.answers ready
  | blockValue => exact blockValue_effects ready
  | perform => exact absurd rfl direct
  | performWithArguments => exact absurd rfl direct
  | performInSuperclass => exact absurd rfl direct
  | signal => exact signalSemaphore_effects ready
  | wait => exact waitSemaphore_effects ready
  | resume => exact resumeProcess_effects ready
  | suspend => exact suspendProcess_effects ready
  | yieldActive => exact yieldActive_effects ready
  | relinquish => exact relinquish_replies.drops ready
  | flushCaches => exact flushCaches_replies.leaves ready
  | flushMethod => exact flushMethod_replies.leaves ready
  | flushSelector => exact flushSelector_replies.leaves ready
  | mousePoint => exact mousePoint_replies.answers ready
  | setMousePoint => exact setMousePoint_replies.drops ready
  | mouseButtons => exact mouseButtons_replies.answers ready
  | nextKey => exact nextKey_replies.answers ready
  | peekKey => exact peekKey_replies.answers ready
  | beCursor => exact beCursor_replies.drops ready
  | beDisplay => exact (beDisplay_replies harmless.array).drops ready
  | forceDisplay => exact forceDisplay_replies.drops ready
  | screenSize => exact screenSize_replies.answers ready
  | replaceFromTo => exact (replaceFromTo_replies harmless).drops ready
  | identical => exact identical_replies.answers ready
  | species => exact species_replies.answers ready
  | slotsLeft => exact slotsLeft_replies.answers ready
  | quit => exact quit_replies.leaves ready
  | become twoWay => exact become_effects ready
  | specialObjectsArray => exact specialObjectsArray_replies.answers ready
  | fullCollection => exact fullCollection_replies.answers ready
  | partialCollection => exact partialCollection_replies.answers ready
  | millisecondClock => exact millisecondClock_replies.answers ready
  | signalAt => exact (signalAt_replies harmless.array).drops ready
  | secondsClock => exact secondsClock_replies.answers ready
  | someObject => exact someObject_replies.answers ready
  | nextObject => exact nextObject_replies.answers ready
  | copy => exact copy_replies.answers ready

end Smalltalk
