import Smalltalk.Proofs.Primitive.Performs

namespace Smalltalk

/-! An instruction sends at most one message, and until then it only reads: it finds the
selector, the number of arguments and the class, or tries in vain to do without a message. -/

namespace Machine

/-- A message is sent while the objects are still the same. -/
abbrev Passes (machine : Machine) : Value → Nat → Machine → Prop :=
  fun _ _ after => machine.Untouched after

end Machine

namespace Run

open Machine

variable {α β : Type} {answer : α}

theorem CacheApart.untouched {machine after : Machine} (apart : CacheApart machine after) :
    machine.Untouched after := by
  rcases apart with ⟨cache, rfl⟩
  exact ⟨rfl, rfl, rfl⟩

/-- The computation touches no object. -/
def Reads (run : Run α) : Prop :=
  ∀ machine, run.Ensures machine fun _ after => machine.Untouched after

namespace Reads

variable {run : Run α} {next : α → Run β}

theorem of_looks (looks : Looks run) : Reads run :=
  fun machine => (looks machine machine (.refl machine)).mono fun _ _ ended =>
    CacheApart.untouched ended.1

theorem bind (first : Reads run) (second : ∀ result, Reads (next result)) : Reads (run >>= next) :=
  fun machine => (first machine).bind fun result between early =>
    (second result between).mono fun _ _ late => early.trans late

theorem pure {result : α} : Reads (Pure.pure result) := of_looks .pure

theorem modifyRegisters {change : Registers → Registers}
    (context : ∀ registers, (change registers).activeContext = registers.activeContext)
    (specials : ∀ registers, (change registers).specials = registers.specials) :
    Reads (modifyRegisters change) := by
  intro machine
  refine (ensures_modifyRegisters machine change).mono ?_
  rintro - after rfl
  exact ⟨rfl, context _, specials _⟩

/-- What follows may send. -/
theorem delegates {machine : Machine} {next : α → Reply.Sender → Run β} {answer : β}
    (reads : Reads run)
    (rest : ∀ result between, Delegates between.Passes (next result) answer between) :
    Delegates machine.Passes (fun sender => run >>= fun result => next result sender) answer
      machine :=
  .bind (reads machine) fun result between early =>
    (rest result between).mono fun _ _ _ late => early.trans late

end Reads

/-- What tries to do without a message touches no object if it fails. -/
theorem Clean.delegates {machine : Machine} {run : Run Bool} {next : Reply.Sender → Run Unit}
    (clean : Clean run) (rest : ∀ between : Machine, Delegates between.Passes next () between) :
    Delegates machine.Passes (fun sender => do unless ← run do next sender) () machine := by
  refine .bind (clean machine) fun answered between apart => ?_
  cases answered with
  | true => exact .const
  | false =>
    exact (rest between).mono fun _ _ _ late => (CacheApart.untouched (apart rfl)).trans late

/-! ## Reading -/

theorem literal_looks {index : Nat} : Looks (literal index) :=
  Looks.getRegisters.bind fun _ => .fetch

theorem superclassOfMethod_looks : Looks superclassOfMethod := by
  refine Looks.getRegisters.bind fun registers => ?_
  refine .bind (Looks.readHeap.bind fun header => ?_) fun header => ?_
  · cases header with
    | none => exact .throw
    | some header => exact .pure
  · exact Looks.fetch.bind fun _ => Looks.fetch.bind fun _ => .fetch

theorem nextByte_reads : Reads nextByte := by
  refine .bind (.of_looks .getRegisters) fun registers => ?_
  refine .bind (.of_looks .readHeap) fun method => ?_
  split
  · exact .of_looks .throw
  · exact .bind (.modifyRegisters (fun _ => rfl) fun _ => rfl) fun _ => .pure

theorem pop_reads : Reads pop := by
  refine .bind (.of_looks .operand) fun value => .bind (.of_looks .getRegisters) fun registers => ?_
  have rest : Reads (do drop 1; return value) :=
    .bind (.modifyRegisters (fun _ => rfl) fun _ => rfl) fun _ => .pure
  dsimp only
  split
  · exact .bind (.of_looks .throw) fun _ => rest
  · exact rest

theorem integerPair_looks : Looks integerPair :=
  Looks.operand.bind fun _ => Looks.operand.bind fun _ => .pure

/-! ## Without a message -/

theorem inlineArithmetic_clean (message : ArithmeticMessage) : Clean (inlineArithmetic message) := by
  unfold inlineArithmetic
  cases message.meaning with
  | makePoint => exact Reply.pointOf_clean 1
  | operation operation =>
    refine .bind integerPair_looks fun pair => ?_
    rcases pair with - | ⟨a, b⟩
    · exact .pure
    · dsimp only
      cases operation.value? a b with
      | none => exact .pure
      | some result => exact (Answers.bind fun _ => .pure).clean
  | comparison comparison =>
    refine .bind integerPair_looks fun pair => ?_
    rcases pair with - | ⟨a, b⟩
    · exact .pure
    · exact (Answers.bind fun _ => .bind fun _ => .pure).clean

theorem rememberedPart_looks {object : Value} {access : Access} :
    Looks (Reply.rememberedPart object access) :=
  .ite .pure (Looks.get.bind fun _ => .pure)

theorem inlineElementAt_clean : Clean Reply.inlineElementAt := by
  refine .bind .operand fun receiver => .bind rememberedPart_looks fun part => ?_
  cases part with
  | none => exact .pure
  | some part =>
    refine .bind .operand fun index => ?_
    cases Reply.place? index part.size with
    | none => exact .pure
    | some place => exact (Answers.bind fun _ => .bind fun _ => .pure).clean

theorem inlineSetElementAt_clean : Clean Reply.inlineSetElementAt := by
  refine .bind .operand fun receiver => .bind rememberedPart_looks fun part => ?_
  cases part with
  | none => exact .pure
  | some part =>
    refine .bind .operand fun index => ?_
    cases Reply.place? index part.size with
    | none => exact .pure
    | some place =>
      refine .bind .operand fun value => ?_
      exact (Reply.writeElement_clean part place value).andThen (.bind fun _ => .pure)

theorem inlineCommon_clean (message : CommonMessage) : Clean (inlineCommon message) := by
  cases message with
  | atIndex => exact inlineElementAt_clean
  | atIndexPut => exact inlineSetElementAt_clean
  | identical =>
    exact (Answers.bind fun _ => .bind fun _ => .bind fun _ => .bind fun _ => .pure).clean
  | species => exact (Answers.bind fun _ => .bind fun _ => .bind fun _ => .pure).clean
  | blockCopy => exact Reply.blockCopy_clean 1
  | value => exact Reply.blockValue_clean 0
  | valueWithArgument => exact Reply.blockValue_clean 1
  | sent index => exact .pure

/-! ## With a message -/

theorem sendBy_delegates (selector : Value) (count : Nat) (toSuper : Bool) (machine : Machine) :
    Delegates machine.Passes (fun sender => sendBy sender selector count toSuper) () machine := by
  refine .ite (fun _ => ?_) fun _ => ?_
  · exact (Reads.of_looks superclassOfMethod_looks).delegates fun _ between =>
      .tail (.refl between)
  · exact (Reads.of_looks .operand).delegates fun _ _ =>
      (Reads.of_looks .classOf).delegates fun _ between => .tail (.refl between)

theorem sendSpecial_delegates (index : Nat) (machine : Machine) :
    Delegates machine.Passes (fun sender => sendSpecial sender index) () machine := by
  refine (Reads.of_looks .getRegisters).delegates fun registers _ => ?_
  refine (Reads.of_looks .fetch).delegates fun selector _ => ?_
  refine (Reads.of_looks .readHeap).delegates fun count _ => ?_
  refine .ite (fun _ => ?_) fun _ => sendBy_delegates _ _ _ _
  exact .const

theorem jumpIf_delegates (condition : Bool) (distance : Nat) (machine : Machine) :
    Delegates machine.Passes (fun sender => jumpIf sender condition distance) () machine := by
  have restore : Reads (modifyRegisters fun registers =>
      { registers with sp := registers.sp + 1 }) :=
    .modifyRegisters (fun _ => rfl) fun _ => rfl
  refine pop_reads.delegates fun value _ => ?_
  refine (Reads.of_looks .getRegisters).delegates fun registers _ => ?_
  refine .ite (fun _ => .const) fun _ => .ite (fun _ => ?_) fun _ => .const
  refine restore.delegates fun _ _ => ?_
  exact (Reads.of_looks .specialObject).delegates fun selector _ => sendBy_delegates _ _ _ _

theorem sendLiteral_delegates (index count : Nat) (toSuper : Bool) (machine : Machine) :
    Delegates machine.Passes (fun sender => do sendBy sender (← literal index) count toSuper) ()
      machine :=
  (Reads.of_looks literal_looks).delegates fun _ _ => sendBy_delegates _ _ _ _

theorem doubleExtended_delegates (machine : Machine) :
    Delegates machine.Passes (fun sender => doubleExtended sender) () machine := by
  refine nextByte_reads.delegates fun second _ => nextByte_reads.delegates fun third _ => ?_
  dsimp only
  split
  · exact sendLiteral_delegates _ _ false _
  · exact sendLiteral_delegates _ _ true _
  all_goals exact .const

theorem execute_delegates (byte : UInt8) (machine : Machine) :
    Delegates machine.Passes (fun sender => execute sender byte) () machine := by
  unfold execute
  cases Opcode.ofByte byte with
  | extendedSend => exact nextByte_reads.delegates fun _ _ => sendLiteral_delegates _ _ false _
  | doubleExtended => exact doubleExtended_delegates machine
  | extendedSuperSend => exact nextByte_reads.delegates fun _ _ => sendLiteral_delegates _ _ true _
  | secondExtendedSend => exact nextByte_reads.delegates fun _ _ => sendLiteral_delegates _ _ false _
  | jumpIfFalse distance => exact jumpIf_delegates false distance machine
  | longJumpIf condition page =>
    exact nextByte_reads.delegates fun _ _ => jumpIf_delegates condition _ _
  | arithmetic message =>
    exact (inlineArithmetic_clean message).delegates fun _ => sendSpecial_delegates _ _
  | common message =>
    exact (inlineCommon_clean message).delegates fun _ => sendSpecial_delegates _ _
  | sendLiteral index count => exact sendLiteral_delegates index count false machine
  | _ => exact .const

/-- A step sends at most one message, in a machine with the objects that it began with. -/
theorem stepBy_delegates (machine : Machine) :
    Delegates machine.Passes (fun sender => stepBy sender) () machine := by
  refine nextByte_reads.delegates fun byte between => ?_
  refine .bindOk (modify_apply _) ?_
  exact (execute_delegates byte _).mono fun _ _ _ later => ⟨later.heap, later.context, later.specials⟩

end Run

end Smalltalk
