import Smalltalk.Proofs.Frame.Contained
import Smalltalk.Proofs.Indexed.Stepping
import Smalltalk.Proofs.Machine.Messages

namespace Smalltalk

/-! Every instruction keeps the operand stack inside the frame, if it finds its operands
there, and so do runs of such instructions. -/

/-! ## Instructions -/

namespace Run

variable {α : Type} {start machine : Machine} {count : Nat}

theorem ensures_pop (machine : Machine) :
    pop.Ensures machine fun _ after => after = machine.dropped 1 := by
  refine (ensures_operand machine 0).bindTo fun value _ => ?_
  refine (ensures_getRegisters machine).bindExactly ?_
  split
  · exact .bind .throw fun _ _ absurd => absurd
  · exact (ensures_drop machine 1).bindChange fun _ => .pure rfl

/-- The operand stack stays inside the frame, if what came before let the frame rest. -/
def Contains (start : Machine) (run : Run Unit) : Prop :=
  ∀ machine, start.Rests 0 machine → run.Ensures machine fun _ after => start.Contained after

namespace Contains

@[grind ←]
theorem bind {run : Run α} {next : α → Run Unit} (first : Rested start 0 run)
    (second : ∀ result, Contains start (next result)) : Contains start (run >>= next) :=
  fun machine rests => (first machine rests).bind fun result after ended =>
    second result after ended.1

@[grind ←]
theorem andThen {run : Run Unit} {next : Unit → Run Unit} (first : Rested start 0 run)
    (second : Contains start (next ())) : Contains start (run >>= next) :=
  bind first fun _ => second

theorem ite {condition : Prop} [Decidable condition] {first second : Run Unit}
    (yes : Contains start first) (no : Contains start second) :
    Contains start (if condition then first else second) := by
  split
  · exact yes
  · exact no

theorem of_rested {run : Run Unit} (ready : start.Ready) (rested : Rested start 0 run) :
    Contains start run :=
  fun machine rests => (rested machine rests).mono fun _ _ ended =>
    .of_carries ready.toInside ended.1.carries (ended.1.sp ▸ ready.lower)

theorem push (ready : start.Ready) (value : Value) : Contains start (push value) := by
  intro machine rests
  refine (push_carries rests.toStands value (Nat.zero_le _)).mono fun _ after ⟨carries, changed⟩ => ?_
  refine .of_carries ready.toInside carries ?_
  have lower := ready.lower
  rw [changed]
  change ContextField.frame ≤ machine.registers.sp + 1 + 1
  rw [rests.sp]
  omega

/-- What remains after operands have been dropped. -/
theorem drop {next : Run Unit} (second : Contains (start.dropped count) next) :
    Contains start (do drop count; next) := by
  intro machine rests
  refine (ensures_drop machine count).bindChange fun _ => ?_
  refine (second (machine.dropped count) (rests.dropped count)).mono fun _ after contained => ?_
  exact ⟨contained.consistent, contained.inside⟩

theorem pop {next : Value → Run Unit} (second : ∀ value, Contains (start.dropped 1) (next value)) :
    Contains start (pop >>= next) := by
  intro machine rests
  refine (ensures_pop machine).bindChange fun value => ?_
  refine (second value (machine.dropped 1) (rests.dropped 1)).mono fun _ after contained => ?_
  exact ⟨contained.consistent, contained.inside⟩

end Contains

/-! ## Reading and writing -/

section

variable {bottom index : Nat}

@[grind ←]
theorem field_rests : Rested start bottom (field index) := by
  grind [field]

@[grind ←]
theorem temporary_rests : Rested start bottom (temporary index) := by
  grind [temporary]

@[grind ←]
theorem literal_rests : Rested start bottom (literal index) := by
  grind [literal]

@[grind ←]
theorem literalVariable_rests : Rested start bottom (literalVariable index) := by
  grind [literalVariable]

@[grind ←]
theorem constant_rests {name : Constant} : Rested start bottom (constant name) := by
  cases name <;> grind [constant]

@[grind ←]
theorem advance_rests {distance : Nat} : Rested start bottom (advance distance) :=
  modifyRegisters_rests fun _ => rfl

@[grind ←]
theorem nextByte_rests : Rested start bottom nextByte := by
  refine getRegisters_rests.bind fun registers => object_rests.bind fun method => ?_
  split
  · exact .fail
  · exact .andThen (modifyRegisters_rests fun _ => rfl) .pure

theorem jumpBy_rests {distance : Int} : Rested start bottom (jumpBy distance) := by
  refine getRegisters_rests.bind fun registers => .ite (fun _ => .failThen) fun _ => ?_
  exact modifyRegisters_rests fun _ => rfl

@[grind ←]
theorem integerPair_rests : Rested start bottom integerPair := by
  grind [integerPair]

end

/-- Every object may be written to without moving the stack. -/
theorem storeAnywhere_rests {object value : Value} {index : Nat} :
    Rested start 0 (store object index value) := store_rests fun _ => by decide

@[grind ←]
theorem storeField_rests {index : Nat} {value : Value} :
    Rested start 0 (storeField index value) :=
  getRegisters_rests.bind fun _ => storeAnywhere_rests

@[grind ←]
theorem storeTemporary_rests {index : Nat} {value : Value} :
    Rested start 0 (storeTemporary index value) :=
  getRegisters_rests.bind fun _ => storeAnywhere_rests

@[grind ←]
theorem storeLiteralVariable_rests {index : Nat} {value : Value} :
    Rested start 0 (storeLiteralVariable index value) :=
  literal_rests.bind fun _ => storeAnywhere_rests

theorem extendedStore_rests {opcode operand : UInt8} :
    Rested start 0 (extendedStore opcode operand) := by
  refine top_rests.bind fun value => ?_
  split
  · exact storeField_rests
  · exact storeTemporary_rests
  · exact getRegisters_rests.bind fun _ => .fail
  · exact storeLiteralVariable_rests

/-! ## Messages -/

@[grind ←]
theorem superclassOfMethod_rests {bottom : Nat} : Rested start bottom superclassOfMethod := by
  grind [superclassOfMethod]

/-- A message is contained if its receiver lies in the frame. -/
theorem sendBy_contains (ready : start.Ready)
    (enough : ContextField.frame + count ≤ start.registers.sp) (depth : Nat) (selector : Value)
    (toSuper : Bool) : Contains start (sendBy (sendToClass depth) selector count toSuper) := by
  have send (species : Value) : Contains start (sendToClass depth selector count species) := by
    intro machine rests
    have place : machine.registers.sp = start.registers.sp - count + count := by
      rw [rests.sp]
      omega
    have harmless : machine.Harmless 0 count :=
      ⟨fun _ => by decide, fun _ => by decide, .inl (by decide)⟩
    refine (sendToClass_delivers depth selector count species machine 0
      (start.registers.sp - count) rests.toStands.rests harmless place (Nat.zero_le _)).mono
      fun _ after sent => ?_
    exact (sent.of_carries rests.carries).contained ready.toInside (by omega)
  refine .ite (.bind superclassOfMethod_rests send) ?_
  exact .bind operand_rests fun receiver => .bind classOf_rests send

theorem sendSpecial_contains (ready : start.Ready) {index : Nat}
    (enough : ContextField.frame + start.arity index ≤ start.registers.sp) (depth : Nat)
    (apart : CacheApart start machine) :
    (sendSpecial (sendToClass depth) index).Ensures machine fun _ after =>
      start.Contained after := by
  rcases apart with ⟨cache, rfl⟩
  have rests : start.Rests 0 { start with registers.methodCache := cache } :=
    ready.rests.of_same rfl rfl rfl rfl rfl
  refine (ensures_getRegisters _).bindExactly ?_
  refine (ensures_fetch _ _ _).bindTo fun selector _ => ?_
  refine (ensures_fetchInt _ _ _).bindTo fun listed found => ?_
  split
  · exact .bind .fail fun _ _ absurd => absurd
  · refine sendBy_contains ready ?_ depth selector false _ rests
    rw [Machine.arity] at enough
    rw [found] at enough
    exact enough

/-- What is no truth value is asked to be one, where it was on the stack. -/
theorem jumpIf_contains (ready : start.Ready)
    (enough : ContextField.frame + 1 ≤ start.registers.sp + 1) (depth : Nat) (condition : Bool)
    (distance : Nat) : Contains start (jumpIf (sendToClass depth) condition distance) := by
  intro machine rests
  refine (ensures_pop machine).bindChange fun value => ?_
  refine (ensures_getRegisters _).bindExactly ?_
  have left : (start.dropped 1).Ready := ready.dropped enough
  have frame : ContextField.frame = 6 := rfl
  have stays {run : Run Unit} (rested : Rested (start.dropped 1) 0 run) :
      run.Ensures (machine.dropped 1) fun _ after => start.Contained after :=
    (Contains.of_rested left rested _ (rests.dropped 1)).mono fun _ _ contained =>
      ⟨contained.consistent, contained.inside⟩
  dsimp only
  split
  · exact stays advance_rests
  · split
    · refine (ensures_modifyRegisters _ _).bindChange fun _ => ?_
      have ask : Contains start (do
          sendBy (sendToClass depth) (← specialObject Special.mustBeBoolean) 0 false) :=
        .bind specialObject_rests fun selector =>
          sendBy_contains ready (by omega) depth selector false
      refine ask _ ?_
      have sp : machine.registers.sp - 1 + 1 = start.registers.sp := by
        rw [rests.sp]
        omega
      exact ⟨rests.toStands.of_same rfl rfl rfl, sp, rests.argumentCount⟩
    · exact stays .pure

/-! ## Messages that are not sent -/

/-- The operand stack stays inside the frame if the message is answered on the spot. -/
def Inlines (start : Machine) (run : Run Bool) : Prop :=
  ∀ machine, start.Rests 0 machine → run.Ensures machine fun done after =>
    done = true → start.Contained after

namespace Inlines

theorem bind {run : Run α} {next : α → Run Bool} (first : Rested start 0 run)
    (second : ∀ result, Inlines start (next result)) : Inlines start (run >>= next) :=
  fun machine rests => (first machine rests).bind fun result after ended =>
    second result after ended.1

theorem refuse : Inlines start (Pure.pure false) := fun _ _ => .pure nofun

theorem of_effects (ready : start.Ready) (enough : ContextField.frame + count ≤ start.registers.sp)
    {manner : Manner} {run : Run Bool}
    (effects : ∀ machine, machine.Rests 0 machine → Effects machine 0 count manner run) :
    Inlines start run := by
  intro machine rests
  refine (effects machine rests.toStands.rests).mono fun done after ended succeeded => ?_
  refine Machine.contained_of_effect ready.toInside rests.carries
    (Nat.le_sub_of_add_le enough) ?_ (ended.2 succeeded)
  rw [rests.sp]
  omega

theorem drop {next : Run Unit} (second : Contains (start.dropped count) next) :
    Inlines start (do drop count; next; return true) := by
  intro machine rests
  refine (ensures_drop machine count).bindChange fun _ => ?_
  refine (second (machine.dropped count) (rests.dropped count)).bind fun _ after contained => ?_
  exact .pure fun _ => ⟨contained.consistent, contained.inside⟩

end Inlines

theorem pushOrBranch_contains (ready : start.Ready) (result : Bool) :
    Contains start (pushOrBranch result) := by
  refine .bind getRegisters_rests fun registers => .bind object_rests fun method => ?_
  dsimp only
  split
  · exact .of_rested ready advance_rests
  · exact .push ready _

theorem inlineArithmetic_inlines (ready : start.Ready)
    (enough : ContextField.frame + 2 ≤ start.registers.sp + 1) (message : ArithmeticMessage) :
    Inlines start (inlineArithmetic message) := by
  unfold inlineArithmetic
  cases message.meaning with
  | makePoint => exact .of_effects ready (by omega) fun _ rests => Reply.pointOf_replies.answers rests
  | operation operation =>
    refine .bind integerPair_rests fun pair => ?_
    rcases pair with - | ⟨a, b⟩
    · exact .refuse
    · dsimp only
      cases operation.value? a b with
      | none => exact .refuse
      | some result =>
        have answers : Inlines start (succeed 1 result) :=
          .of_effects ready (by omega) fun _ rests => succeed_replies.answers rests
        exact answers
  | comparison comparison =>
    refine .bind integerPair_rests fun pair => ?_
    rcases pair with - | ⟨a, b⟩
    · exact .refuse
    · exact .drop (pushOrBranch_contains (ready.dropped enough) _)

theorem inlineElementAt_replies {bottom : Nat} :
    Replies start bottom (Machine.Yields 1) Reply.inlineElementAt := by
  refine .bind operand_rests fun receiver => .bind Reply.rememberedPart_rests fun part => ?_
  cases part with
  | none => exact .refuse
  | some part =>
    refine .bind operand_rests fun index => ?_
    cases Reply.place? index part.size with
    | none => exact .refuse
    | some place =>
      refine .bind Reply.readElement_rests fun element => ?_
      exact (succeed_replies : Replies start bottom _ (succeed 1 element))

theorem inlineSetElementAt_replies :
    Replies start 0 (Machine.Yields 2) Reply.inlineSetElementAt := by
  refine .bind operand_rests fun receiver => .bind Reply.rememberedPart_rests fun part => ?_
  cases part with
  | none => exact .refuse
  | some part =>
    refine .bind operand_rests fun index => ?_
    cases Reply.place? index part.size with
    | none => exact .refuse
    | some place =>
      refine .bind operand_rests fun value => ?_
      refine .bind (Reply.writeElement_rests fun _ => by decide) fun written => ?_
      cases written with
      | false => exact .refuse
      | true => exact (succeed_replies : Replies start 0 _ (succeed 2 value))

theorem inlineCommon_inlines (ready : start.Ready) (message : CommonMessage)
    (enough : ContextField.frame + message.operands ≤ start.registers.sp + 1) :
    Inlines start (inlineCommon message) := by
  have lower (count : Nat) (enough : ContextField.frame + (count + 1) ≤ start.registers.sp + 1) :
      ContextField.frame + count ≤ start.registers.sp := Nat.le_of_succ_le_succ enough
  cases message with
  | atIndex =>
    exact .of_effects ready (lower 1 enough) fun _ rests => inlineElementAt_replies.answers rests
  | atIndexPut =>
    exact .of_effects ready (lower 2 enough) fun _ rests => inlineSetElementAt_replies.answers rests
  | identical =>
    refine .bind operand_rests fun argument => .bind operand_rests fun receiver => ?_
    exact .drop (pushOrBranch_contains (ready.dropped enough) _)
  | species =>
    refine .bind top_rests fun value => .bind classOf_rests fun species => ?_
    have answers : Inlines start (succeed 0 species) :=
      .of_effects ready (lower 0 enough) fun _ rests => succeed_replies.answers rests
    exact answers
  | blockCopy =>
    exact .of_effects ready (lower 1 enough) fun _ rests => Reply.blockCopy_replies.answers rests
  | value => exact .of_effects ready (lower 0 enough) fun _ => Reply.blockValue_effects
  | valueWithArgument => exact .of_effects ready (lower 1 enough) fun _ => Reply.blockValue_effects
  | sent index => exact .refuse

/-- What is not answered on the spot is sent. -/
theorem unlessDone_contains (ready : start.Ready) {inline : Run Bool}
    (inlines : Inlines start inline) (clean : Clean inline) {index : Nat}
    (enough : ContextField.frame + start.arity index ≤ start.registers.sp) (depth : Nat) :
    (do unless ← inline do sendSpecial (sendToClass depth) index : Run Unit).Ensures start
      fun _ after => start.Contained after := by
  refine ((inlines start ready.rests).and (clean start)).bind fun done after ended => ?_
  cases done with
  | true => exact .pure (ended.1 rfl)
  | false => exact sendSpecial_contains ready enough depth (ended.2 rfl)

/-! ## Every instruction -/

theorem extendedPush_contains (ready : start.Ready) (operand : UInt8) :
    Contains start (extendedPush operand) := by
  unfold extendedPush
  dsimp only
  split
  · exact .bind field_rests (.push ready)
  · exact .bind temporary_rests (.push ready)
  · exact .bind literal_rests (.push ready)
  · exact .bind literalVariable_rests (.push ready)

theorem returnTo_contained (ready : start.Ready) (value target : Value) :
    (returnTo value target).Ensures start fun _ after => start.Contained after :=
  ((returnTo_inside ready.toOrderly value target).and
    (returnTo_plain.kept start (.refl ready.consistent))).mono fun _ _ ended =>
      ⟨ended.2.1.consistent, fun orderly _ => ended.1 orderly⟩

theorem returnToHomeSender_contained (ready : start.Ready) (value : Value) :
    (returnToHomeSender value).Ensures start fun _ after => start.Contained after := by
  refine (ensures_getRegisters start).bindExactly ?_
  refine (ensures_fetch start _ _).bindTo fun sender _ => ?_
  exact returnTo_contained ready value sender

theorem checkInterrupts_contains (ready : start.Ready) : Contains start checkInterrupts := by
  intro machine rests
  have inside : machine.Inside := ⟨rests.sp ▸ ready.lower, rests.carries.fits ready.upper⟩
  refine ((checkInterrupts_places fun _ => .inl inside).and
    (checkInterrupts_plain.kept machine (.refl rests.consistent))).mono fun _ after ended => ?_
  exact .of_placed ended.2.1.consistent ended.1

/-- The operands of an extended instruction depend on the byte that follows. -/
theorem nextByte_second {next : UInt8 → Run Unit}
    (ready : start.Ready) (second : ∀ byte, (start.nextByte?.map UInt8.toNat).getD 0 = byte.toNat →
      Contains start (next byte)) :
    (nextByte >>= next).Ensures start fun _ after => start.Contained after := by
  refine (ensures_nextByte start).bindTo fun byte read => ?_
  refine second byte (by rw [read]; rfl) _ ?_
  exact ready.rests.of_same rfl rfl rfl rfl rfl

theorem doubleExtended_contained (ready : start.Ready) (depth : Nat)
    (enough : ContextField.frame + Opcode.doubleExtended.operands
      ((start.nextByte?.map UInt8.toNat).getD 0) start.arity ≤ start.registers.sp + 1) :
    (doubleExtended (sendToClass depth)).Ensures start fun _ after => start.Contained after := by
  refine nextByte_second ready fun second read => .bind nextByte_rests fun third => ?_
  rw [read] at enough
  dsimp only
  split <;> rename_i kind <;> simp only [Opcode.operands, kind] at enough
  · exact .bind literal_rests fun _ => sendBy_contains ready (by omega) depth _ _
  · exact .bind literal_rests fun _ => sendBy_contains ready (by omega) depth _ _
  · exact .bind field_rests (.push ready)
  · exact .bind literal_rests (.push ready)
  · exact .bind literalVariable_rests (.push ready)
  · exact .of_rested ready (top_rests.bind fun _ => storeField_rests)
  · have left := ready.dropped enough
    refine .bind top_rests fun value => .andThen storeField_rests ?_
    exact .drop (.of_rested left .pure)
  · exact .of_rested ready (top_rests.bind fun _ => storeLiteralVariable_rests)

/-- Whatever instruction is executed, the operand stack stays inside the frame if the
instruction finds its operands there. -/
theorem execute_contained (ready : start.Ready) (depth : Nat) {byte : UInt8}
    (enough : ContextField.frame + start.operandsOf byte ≤ start.registers.sp + 1) :
    (execute (sendToClass depth) byte).Ensures start fun _ after => start.Contained after := by
  rw [Machine.operandsOf] at enough
  have here {run : Run Unit} (contains : Contains start run) :
      run.Ensures start fun _ after => start.Contained after := contains start ready.rests
  have left (taken : ContextField.frame + 1 ≤ start.registers.sp + 1) :
      (start.dropped 1).Ready := ready.dropped taken
  unfold execute
  cases instruction : Opcode.ofByte byte <;>
    simp only [instruction, Opcode.operands] at enough
  case pushField index => exact here (.bind field_rests (.push ready))
  case pushTemporary index => exact here (.bind temporary_rests (.push ready))
  case pushLiteral index => exact here (.bind literal_rests (.push ready))
  case pushVariable index => exact here (.bind literalVariable_rests (.push ready))
  case popIntoField index =>
    exact here (.pop fun _ => .of_rested (left enough) storeField_rests)
  case popIntoTemporary index =>
    exact here (.pop fun _ => .of_rested (left enough) storeTemporary_rests)
  case pushConstant name => exact here (.bind constant_rests (.push ready))
  case pushInteger n => exact here (.push ready _)
  case returnConstant name =>
    have named : (constant name).Ensures start fun _ after => after = start :=
      (ensures_getRegisters start).bindExactly (by cases name <;> exact .pure rfl)
    refine named.bindChange fun value => ?_
    exact returnToHomeSender_contained ready value
  case returnTop =>
    refine (ensures_pop start).bindChange fun value => ?_
    exact (returnToHomeSender_contained (left enough) value).mono fun _ _ contained =>
      ⟨contained.consistent, contained.inside⟩
  case returnTopToCaller =>
    refine (ensures_pop start).bindChange fun value => ?_
    refine (ensures_getRegisters _).bindExactly ?_
    refine (ensures_fetch _ _ _).bindTo fun caller _ => ?_
    exact (returnTo_contained (left enough) value caller).mono fun _ _ contained =>
      ⟨contained.consistent, contained.inside⟩
  case extendedPush => exact here (.bind nextByte_rests fun _ => extendedPush_contains ready _)
  case extendedStore =>
    exact here (.of_rested ready (nextByte_rests.bind fun _ => extendedStore_rests))
  case extendedPop =>
    refine here (.bind nextByte_rests fun _ => .andThen extendedStore_rests ?_)
    exact .drop (.of_rested (left enough) .pure)
  case extendedSend =>
    refine nextByte_second ready fun operand read => .bind literal_rests fun _ => ?_
    exact sendBy_contains ready (by rw [read] at enough; omega) depth _ _
  case doubleExtended => exact doubleExtended_contained ready depth enough
  case extendedSuperSend =>
    refine nextByte_second ready fun operand read => .bind literal_rests fun _ => ?_
    exact sendBy_contains ready (by rw [read] at enough; omega) depth _ _
  case secondExtendedSend =>
    refine nextByte_second ready fun operand read => .bind literal_rests fun _ => ?_
    exact sendBy_contains ready (by rw [read] at enough; omega) depth _ _
  case pop => exact here (.drop (.of_rested (left enough) .pure))
  case duplicate => exact here (.bind top_rests (.push ready))
  case pushContext =>
    refine here (.andThen (modifyRegisters_rests fun _ => rfl) (.bind getRegisters_rests ?_))
    exact fun registers => .push ready _
  case jump distance => exact here (.of_rested ready advance_rests)
  case jumpIfFalse distance => exact here (jumpIf_contains ready enough depth _ _)
  case longJump page =>
    refine here (.bind nextByte_rests fun low => .andThen jumpBy_rests ?_)
    exact .ite (checkInterrupts_contains ready) (.of_rested ready .pure)
  case longJumpIf condition page =>
    exact here (.bind nextByte_rests fun _ => jumpIf_contains ready enough depth _ _)
  case arithmetic message =>
    refine unlessDone_contains ready (inlineArithmetic_inlines ready (by omega) message)
      (inlineArithmetic_clean message) (by omega) depth
  case common message =>
    refine unlessDone_contains ready (inlineCommon_inlines ready message (by omega))
      (inlineCommon_clean message) (by omega) depth
  case sendLiteral index count =>
    exact here (.bind literal_rests fun _ => sendBy_contains ready (by omega) depth _ _)
  case reserved => exact here (.of_rested ready (getRegisters_rests.bind fun _ => .fail))

theorem step_contained (ready : start.Ready) (supplied : start.Supplied) :
    step.Ensures start fun _ after => start.Contained after := by
  refine (ensures_nextByte start).bindTo fun byte read => ?_
  refine (ensures_modify _ _).bindChange fun _ => ?_
  have advanced : (start.ahead 1).counted.Ready :=
    { running := ready.running
      calm := ready.calm
      depths := ready.depths
      lower := ready.lower
      upper := ready.upper
      consistent := ready.consistent }
  have enough : ContextField.frame + (start.ahead 1).counted.operandsOf byte
      ≤ start.registers.sp + 1 := by
    rw [Machine.Supplied, Machine.demand, read] at supplied
    exact supplied
  exact (execute_contained advanced Machine.nestingLimit enough).mono fun _ _ contained =>
    ⟨contained.consistent, contained.inside⟩

end Run

/-! ## Runs -/

namespace Machine

variable {start before after machine : Machine}

/-- One step that comes to its end and finds its operands above the fixed fields. After it
contexts keep their stack pointers inside their frames, and it has not exchanged the active
context for another one. -/
structure SuppliedStep (before after : Machine) : Prop where
  supplied : before.Supplied
  ended : Run.step before = .ok () after
  orderly : after.Orderly
  unexchanged : ¬ before.Exchanges after

/-- Any number of such steps. -/
inductive SuppliedRuns (start : Machine) : Machine → Prop
  | refl : SuppliedRuns start start
  | step {before after : Machine} (run : SuppliedRuns start before)
      (step : before.SuppliedStep after) : SuppliedRuns start after

theorem SuppliedStep.ready (step : before.SuppliedStep after) (ready : before.Ready) :
    after.Ready where
  toOrderly := step.orderly
  toInside := (Run.step_contained ready step.supplied () after step.ended).inside
    step.orderly step.unexchanged
  consistent := (Run.step_contained ready step.supplied () after step.ended).consistent

theorem SuppliedRuns.ready (runs : start.SuppliedRuns machine) (ready : start.Ready) :
    machine.Ready := by
  induction runs with
  | refl => exact ready
  | step _ step induction => exact step.ready induction

/-! ## Machines -/

/-- What comes after an exchange of identities has forgotten every method that was found. -/
theorem Exchanges.vacant (exchanges : before.Exchanges after) :
    ∀ entry ∈ after.registers.methodCache.entries, entry.isVacant = true := by
  rcases exchanges with ⟨-, between, sources, targets, twoWay, sp, -, rooted, accepted, rfl⟩
  rcases Rooted.become_eq_ok_iff.mp accepted with ⟨redirection, -, rfl⟩
  exact fun entry member => MethodCache.vacant_of_mem_clear member

/-- So a step has exchanged nothing if the same context is active or a method is known. -/
theorem SuppliedStep.of_known (supplied : before.Supplied)
    (ended : Run.step.ended? before = some ((), after)) (orderly : after.Orderly)
    (known : after.registers.activeContext = before.registers.activeContext ∨
      ∃ entry ∈ after.registers.methodCache.entries, entry.isVacant = false) :
    before.SuppliedStep after where
  supplied := supplied
  ended := Run.ended?_eq_some.mp ended
  orderly := orderly
  unexchanged exchanges := by
    rcases known with same | ⟨entry, member, used⟩
    · exact exchanges.1 same
    · rw [exchanges.vacant entry member] at used
      cases used

theorem mem_toOption {ε α : Type} {result : Except ε α} {value : α} :
    value ∈ result.toOption ↔ result = .ok value := by
  cases result <;> simp [Except.toOption]

instance (machine : Machine) : Decidable machine.Inside :=
  decidable_of_iff (ContextField.frame ≤ machine.registers.sp + 1 ∧
    machine.registers.sp < machine.heap.pointerCount machine.registers.activeContext)
    ⟨fun ⟨lower, upper⟩ => ⟨lower, upper⟩, fun ⟨lower, upper⟩ => ⟨lower, upper⟩⟩

instance (machine : Machine) : Decidable machine.Orderly :=
  decidable_of_iff (machine.isContext machine.registers.activeContext = true ∧
    (∀ index ∈ [Special.interruptSemaphore, Special.timerSemaphore],
      ∀ semaphore ∈ (machine.heap.fetch machine.registers.specials.array index).toOption,
        machine.isContext semaphore = false) ∧
    ∀ slot < machine.heap.cells.size, machine.isContext (.object slot) = true →
      ∀ depth ∈ (machine.heap.fetchInt (.object slot) ContextField.stackPointer).toOption,
        0 ≤ depth ∧ ContextField.frame - 1 + depth < machine.heap.pointerCount (.object slot)) <| by
      simp only [mem_toOption]
      constructor
      · rintro ⟨running, calm, depths⟩
        refine ⟨⟨running, calm⟩, fun context isContext depth kept => ?_⟩
        cases context with
        | small n => cases isContext
        | object slot =>
          refine depths slot ?_ isContext depth kept
          cases here : machine.heap.get? (.object slot) with
          | none => simp [Machine.isContext, here] at isContext
          | some owner => exact (Heap.live_of_cell? here).lt_size
      · rintro ⟨⟨running, calm⟩, depths⟩
        exact ⟨running, calm, fun slot _ => depths (.object slot)⟩

/-- A machine whose method executes some code. It has a context and an object without
fields in arrays for an exchange, and a message that finds a method. -/
def operandMachine (method : HeapObject) (code : Array UInt8) : Machine :=
  let nil : Value := .object 0
  let machine := sampleMachine
    [sampleNode .zero #[], sampleNode .zero #[nil, .object 2, .zero],
      sampleNode .zero #[.zero, .object 3, .object 4], sampleNode .zero #[.object 5],
      sampleNode .zero #[], method, sampleMethod 0 [.object 4, .object 10] code,
      sampleNode (.object 9) #[nil, nil, nil, .object 6, nil, .object 8, nil, nil],
      sampleNode (.object 1) #[.object 7], sampleNode .zero #[],
      sampleNode (.object 1) #[.object 9]]
    20 (.object 9)
  { machine with registers := { machine.registers with
      specials := { machine.registers.specials with arrayClass := .object 1 } } }

/-- Runs of a machine may be tried. -/
theorem suppliedRuns_nth {n : Nat}
    (steps : ∀ k < n, (machine.nth k).Supplied ∧
      Run.step.ended? (machine.nth k) = some ((), machine.nth (k + 1)) ∧
      (machine.nth (k + 1)).Orderly ∧
      ((machine.nth (k + 1)).registers.activeContext = (machine.nth k).registers.activeContext ∨
        ∃ entry ∈ (machine.nth (k + 1)).registers.methodCache.entries, entry.isVacant = false)) :
    machine.SuppliedRuns (machine.nth n) := by
  induction n with
  | zero => exact .refl
  | succ n induction =>
    rcases steps n n.lt_succ_self with ⟨supplied, ended, orderly, known⟩
    exact .step (induction fun k before => steps k (before.trans n.lt_succ_self))
      (.of_known supplied ended orderly known)

end Machine

end Smalltalk
