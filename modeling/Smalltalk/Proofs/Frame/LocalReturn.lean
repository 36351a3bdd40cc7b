import Smalltalk.Proofs.Frame.Block
import Smalltalk.Proofs.Frame.RoundTrip
import Smalltalk.Proofs.Frame.Unwind

namespace Smalltalk

/-! A block answers to who evaluated it, and not to the sender of its home. After that nobody
waits for it any more, and it can be evaluated again. -/

namespace Heap

variable {before after : Heap} {context home method receiver : Value} {pc sp : Nat}

/-- A context goes on waiting while its fields, where its home finds the method and the
receiver, and the header of the method are as they were. -/
theorem Waits.kept (waits : before.Waits context home method receiver pc sp)
    (own : ∀ index, after.fetch context index = before.fetch context index)
    (atHome : ∀ index ∈ [ContextField.method, ContextField.receiver],
      after.fetch home index = before.fetch home index)
    (code : after.methodHeader? method = before.methodHeader? method) :
    after.Waits context home method receiver pc sp where
  homeOf := waits.homeOf.transfer (own _) (own _)
  runs := (atHome _ (by simp)).trans waits.runs
  receives := (atHome _ (by simp)).trans waits.receives
  next := by
    rcases waits.next with ⟨header, known, kept⟩
    refine ⟨header, code.trans known, ?_⟩
    rw [fetchInt, own, ← fetchInt]
    exact kept
  depth := by
    rw [fetchInt, own, ← fetchInt]
    exact waits.depth

end Heap

namespace Machine

/-- Later a block is about to answer. What it did in between has left alone what the block knows
and the context of who evaluated it, with the method that goes on there. -/
structure LeavesCaller (machine started : Machine) (block home method receiver : Value)
    (count start : Nat) (later : Machine) : Prop where
  active : later.registers.activeContext = block
  specials : later.registers.specials = machine.registers.specials
  knows : later.Knows block home method receiver count start
  caller : later.heap.fetch block BlockField.caller = .ok machine.registers.activeContext
  waiting : ∀ index, later.heap.fetch machine.registers.activeContext index
    = started.heap.fetch machine.registers.activeContext index
  atHome : ∀ index ∈ [ContextField.method, ContextField.receiver],
    later.heap.fetch machine.registers.homeContext index
      = started.heap.fetch machine.registers.homeContext index
  code : later.heap.methodHeader? machine.registers.method
    = started.heap.methodHeader? machine.registers.method

variable {machine started later : Machine} {block home method receiver : Value}
  {count start : Nat}

/-- A block that was just evaluated has left its caller alone. -/
theorem Evaluates.leavesCaller
    (evaluates : machine.Evaluates block home method receiver count start started) :
    machine.LeavesCaller started block home method receiver count start started where
  active := evaluates.active
  specials := evaluates.specials
  knows := evaluates.knows
  caller := evaluates.caller
  waiting _ := rfl
  atHome _ _ := rfl
  code := rfl

/-- The caller of a block can be answered. -/
theorem Evaluates.answerable
    (evaluates : machine.Evaluates block home method receiver count start started)
    (apart : machine.registers.activeContext ≠ block)
    (leaves : machine.LeavesCaller started block home method receiver count start later) :
    later.Answerable machine.registers.activeContext machine.registers.homeContext
      machine.registers.method machine.registers.receiver machine.registers.pc
      (machine.registers.sp - (count + 1)) := by
  have waits := evaluates.waits.kept leaves.waiting leaves.atHome leaves.code
  rcases waits.next with ⟨header, isMethod, -⟩
  exact
    { sender := leaves.active ▸ leaves.caller
      waits
      apart := leaves.active ▸ leaves.knows.ne_of_waiting apart waits.runs isMethod }

end Machine

namespace Run

variable {machine : Machine} {species block : Value}

theorem pop_pops {value : Value} (found : machine.Operand 0 value) :
    pop.Ensures machine fun result after => result = value ∧
      after = { machine with registers.sp := machine.registers.sp - 1 } := by
  refine .bindOk (operand_eq_ok found) (.bindOk getRegisters_apply ?_)
  split
  · intro _ _ ended
    cases ended
  · exact (ensures_drop machine 1).bindChange fun _ => .pure ⟨rfl, rfl⟩

/-- A return to the sender writes three fields. -/
theorem returnTo_writes {caller home method receiver answer : Value} {pc sp : Nat}
    (answerable : machine.Answerable caller home method receiver pc sp) :
    (returnTo answer caller).Ensures machine fun _ after =>
      after.heap = ((machine.heap.setField machine.registers.activeContext ContextField.sender
        machine.registers.specials.nil).setField machine.registers.activeContext ContextField.pc
          machine.registers.specials.nil).setField caller (sp + 1) answer := by
  refine (returnTo_answers answerable).mono ?_
  rintro _ _ ⟨retired, wiped, -, -, rfl⟩
  rw [← wiped.heap]

end Run

namespace Machine

variable {machine started later : Machine} {block home method receiver : Value}
  {count start : Nat}

/-- How a machine comes out of a local return from a block: it goes on behind the message that
evaluated the block, with the answer in place of the block and the arguments, and the block can
be evaluated again. -/
structure Answers (machine : Machine) (block home method receiver answer : Value)
    (count start : Nat) (after : Machine) : Prop where
  goesOn : machine.GoesOn count answer after
  specials : after.registers.specials = machine.registers.specials
  apart : after.registers.activeContext ≠ block
  knows : after.Knows block home method receiver count start
  idle : after.Idle block

/-- A block that is active answers to who evaluated it. -/
theorem Evaluates.answers {answer : Value}
    (evaluates : machine.Evaluates block home method receiver count start started)
    (apart : machine.registers.activeContext ≠ block)
    (operands : ContextField.frame + count ≤ machine.registers.sp)
    (leaves : machine.LeavesCaller started block home method receiver count start later)
    (onTop : later.Operand 0 answer) (sender : Reply.Sender) :
    (Run.execute sender 125).Ensures later fun _ final =>
      machine.Answers block home method receiver answer count start final := by
  have decoded : Opcode.ofByte 125 = .returnTopToCaller := by decide
  rw [Run.execute, decoded]
  refine (Run.pop_pops onTop).bindExactly (.bindOk Run.getRegisters_apply ?_)
  have active := leaves.active
  refine .bindOk (Run.fetch_ok (active ▸ leaves.caller)) ?_
  have answerable := evaluates.answerable apart leaves
  let popped : Machine := { later with registers.sp := later.registers.sp - 1 }
  have answerableThere : popped.Answerable machine.registers.activeContext
      machine.registers.homeContext machine.registers.method machine.registers.receiver
      machine.registers.pc (machine.registers.sp - (count + 1)) :=
    ⟨answerable.sender, answerable.waits, answerable.apart⟩
  refine (((Run.returnTo_resumes answerableThere).and (Run.returnTo_writes answerableThere)).and
    (Run.returnTo_unwinds answer machine.registers.activeContext)).mono ?_
  rintro _ final ⟨⟨resumed, written⟩, above, unwound⟩
  have kept : final.registers.specials = later.registers.specials := by rw [unwound.rest]
  have specials := kept.trans leaves.specials
  have notMethod := leaves.knows.method_ne.symm
  have wiped : final.heap = ((later.heap.setField block ContextField.sender
      machine.registers.specials.nil).setField block ContextField.pc
        machine.registers.specials.nil).setField machine.registers.activeContext
          (machine.registers.sp - (count + 1) + 1) answer := by
    rw [written, ← leaves.specials, ← active]
  have known : final.heap.BlockOf later.registers.specials.blockContextClass block home method
      receiver count start := by
    rw [wiped]
    refine .setField (.setField (.setField leaves.knows ?_ (.inl notMethod)) ?_ ?_) ?_ ?_
    · exact .inl (by decide)
    · exact .inl (by decide)
    · exact .inr (by decide)
    · exact .inr (by omega)
    · exact .inr (Nat.succ_pos _)
  refine
    { goesOn := resumed.goesOn operands fun index notPc notDepth =>
        (leaves.waiting index).trans (evaluates.elsewhere index notPc notDepth)
      specials := specials
      apart := resumed.active ▸ apart
      knows := .of_specials kept known
      idle := .of_specials specials ?_ }
  rw [wiped, Heap.fetch_setField_other (.inl apart)]
  rcases Heap.fetch_eq_ok_iff.mp leaves.caller with ⟨fields, readable, inside⟩
  have nobody := Heap.fetch_setField_same readable (Array.getElem?_eq_some_iff.mp inside).1
    machine.registers.specials.nil
  exact (Heap.fetch_setField_other (.inr (by decide))).trans nobody

/-- Whether nil is an object that is neither a block nor the active context. -/
structure NilBeside (machine : Machine) (block : Value) : Prop where
  isObject : machine.registers.specials.nil.isSmall = false
  notBlock : machine.registers.specials.nil ≠ block
  notActive : machine.registers.specials.nil ≠ machine.registers.activeContext

/-- Where nil is no context, the local return comes to its end. -/
theorem Evaluates.answers_ends {answer : Value}
    (evaluates : machine.Evaluates block home method receiver count start started)
    (agrees : machine.Agrees) (apart : machine.registers.activeContext ≠ block)
    (operands : ContextField.frame + count ≤ machine.registers.sp)
    (leaves : machine.LeavesCaller started block home method receiver count start later)
    (onTop : later.Operand 0 answer) (occupied : 0 < later.registers.sp)
    (nil : machine.NilBeside block) (sender : Reply.Sender) : (Run.execute sender 125).Ends later := by
  have decoded : Opcode.ofByte 125 = .returnTopToCaller := by decide
  have pops : Run.pop later = .ok answer { later with registers.sp := later.registers.sp - 1 } := by
    rw [Run.pop, Run.top, Run.bind_ok (Run.operand_eq_ok onTop), Run.bind_ok Run.getRegisters_apply,
      if_neg (by omega)]
    rfl
  have active := leaves.active
  rw [Run.execute, decoded]
  refine .bindOk pops (.bindOk Run.getRegisters_apply ?_)
  refine .bindOk (Run.fetch_ok (active ▸ leaves.caller)) ?_
  have answerable := evaluates.answerable apart leaves
  rcases agrees.inside with ⟨fields, readable, below⟩
  simp only [ContextField.frame] at operands
  have slot : machine.registers.sp - count < fields.size := by omega
  have known : later.heap.fetch machine.registers.activeContext (machine.registers.sp - count)
      = .ok fields[machine.registers.sp - count] := by
    rw [leaves.waiting, evaluates.elsewhere _ (by simp only [ContextField.pc]; omega)
      (by simp only [ContextField.stackPointer]; omega)]
    exact Heap.fetch_eq_ok_iff.mpr ⟨fields, readable, Array.getElem?_eq_getElem slot⟩
  rcases Heap.fetch_eq_ok_iff.mp known with ⟨waiting, there, inside⟩
  rcases Heap.fetch_eq_ok_iff.mp leaves.knows.belongs with ⟨left, here, wide⟩
  have specials := leaves.specials
  let popped : Machine := { later with registers.sp := later.registers.sp - 1 }
  have answerableThere : popped.Answerable _ _ _ _ _ _ :=
    ⟨answerable.sender, answerable.waits, answerable.apart⟩
  refine Run.returnTo_ends answerableThere ?_ ?_ ?_ (active ▸ here)
    (lt_trans (by decide) (Array.getElem?_eq_some_iff.mp wide).1) there ?_ answer
  · exact specials ▸ nil.isObject
  · rw [active, specials]
    exact nil.notBlock.symm
  · rw [specials]
    exact nil.notActive.symm
  · have deep := (Array.getElem?_eq_some_iff.mp inside).1
    omega

/-! ## Creation, evaluation and return -/

/-- A block is made with the place where its code starts. As long as it knows that place, for
the method that its home runs, it is evaluated there with its own number of arguments, and not
with another one or while somebody waits for it; and when it answers, who evaluated it goes on
with the answer, and the block can be evaluated again. -/
theorem block_evaluates_and_answers {context home number : Value} {count : Nat}
    (consistent : machine.heap.Consistent) (agrees : machine.Agrees)
    (operands : ContextField.frame + 1 ≤ machine.registers.sp)
    (onContext : machine.Operand 1 context) (counted : machine.Operand 0 number)
    (small : number.int? = some (count : Int)) (belongs : machine.heap.HomeOf context home)
    (runs : machine.heap.fetch home ContextField.method = .ok machine.registers.method)
    (fits : ∀ header, machine.heap.methodHeader? machine.registers.method = .ok (some header) →
      machine.registers.pc + 2 + header.firstPc ≤ SmallInt.maximum) :
    (Reply.blockCopy 1).Ensures machine fun answered made => answered = true →
      ∃ block receiver, machine.Creates block home receiver count made ∧
        ∀ (later : Machine) (method receiver : Value),
          later.Knows block home method receiver count (machine.registers.pc + 2) →
          (∀ other, later.Operand other block → (other ≠ count ∨ later.Busy block) →
            Reply.blockValue other later = .ok false later) ∧
          (later.Agrees → ContextField.frame + count ≤ later.registers.sp →
            later.Operand count block → later.registers.activeContext ≠ block →
            later.Idle block →
            (ContextField.frame + count ≤ later.heap.pointerCount block →
              (Reply.blockValue count).Ends later) ∧
            (Reply.blockValue count).Ensures later fun answered started => answered = true ∧
              later.Evaluates block home method receiver count (machine.registers.pc + 2)
                started ∧
              ∀ ending, later.LeavesCaller started block home method receiver count
                  (machine.registers.pc + 2) ending →
                ∀ answer, ending.Operand 0 answer → ∀ sender,
                  (Run.execute sender 125).Ensures ending (fun _ final =>
                    later.Answers block home method receiver answer count
                      (machine.registers.pc + 2) final) ∧
                  (0 < ending.registers.sp → later.NilBeside block →
                    (Run.execute sender 125).Ends ending)) := by
  refine (Reply.blockCopy_creates consistent agrees operands onContext counted small belongs runs
    fits).mono fun answered made creates succeeded => ?_
  rcases creates succeeded with ⟨block, receiver, creates⟩
  refine ⟨block, receiver, creates, fun later method receiver knows => ⟨?_, ?_⟩⟩
  · exact fun other onBlock unfit => Reply.blockValue_fails knows onBlock unfit
  · intro agreesLater deep onBlock apart idle
    refine ⟨Reply.blockValue_ends agreesLater apart knows onBlock idle deep, ?_⟩
    refine (Reply.blockValue_evaluates agreesLater apart knows onBlock idle).mono ?_
    rintro _ started ⟨rfl, evaluates⟩
    refine ⟨rfl, evaluates, fun ending leaves answer onTop sender => ⟨?_, ?_⟩⟩
    · exact evaluates.answers apart deep leaves onTop sender
    · intro occupied nil
      exact evaluates.answers_ends agreesLater apart deep leaves onTop occupied nil sender

/-- A machine with its own context and the number of arguments of a block on its stack. -/
def copyingMachine : Machine :=
  let nil : Value := .object 0
  let machine := sampleMachine
    [sampleNode .zero #[], sampleNode .zero #[], sampleNode .zero #[], sampleNode .zero #[],
      sampleNode .zero #[], sampleNode .zero #[], sampleMethod 0 [] #[120, 120, 120, 120],
      sampleNode nil
        #[nil, nil, nil, .object 6, nil, .object 8, .object 7, .ofInt 1, nil, nil, nil],
      sampleNode .zero #[]]
    12 nil
  { machine with registers.sp := 7 }

theorem agrees_copyingMachine : copyingMachine.Agrees where
  homeOf := ⟨.object 6, by decide +kernel, by decide +kernel⟩
  runs := by decide +kernel
  receives := by decide +kernel
  next := ⟨MethodHeader.pack 0 0 0 0 false, by decide +kernel, by decide +kernel⟩
  inside := ⟨#[.object 0, .object 0, .object 0, .object 6, .object 0, .object 8, .object 7,
    .ofInt 1, .object 0, .object 0, .object 0], by decide +kernel, by decide +kernel⟩
  fits := by decide +kernel

/-- The block is evaluated with an argument, which it answers. -/
theorem block_evaluates_and_answers_copyingMachine :
    let made := (Reply.blockCopy 1).left copyingMachine
    let later := (Run.push (.ofInt 3)).left made
    let started := (Reply.blockValue 1).left later
    Reply.blockCopy 1 copyingMachine = .ok true made ∧
      Reply.blockValue 0 made = .ok false made ∧
      Reply.blockValue 1 later = .ok true started ∧
      ∃ final, Run.execute (Run.sendToClass 1) 125 started = .ok () final ∧
        later.Answers (.object 9) (.object 7) (.object 6) (.object 8) (.ofInt 3) 1 2 final := by
  intro made later started
  have fits : ∀ header, copyingMachine.heap.methodHeader? copyingMachine.registers.method
      = .ok (some header) →
        copyingMachine.registers.pc + 2 + header.firstPc ≤ SmallInt.maximum := by
    intro header isMethod
    have known : copyingMachine.heap.methodHeader? copyingMachine.registers.method
        = .ok (some (MethodHeader.pack 0 0 0 0 false)) := by decide +kernel
    cases known.symm.trans isMethod
    decide +kernel
  have copied : Reply.blockCopy 1 copyingMachine = .ok true made :=
    Run.ended?_eq_some.mp (by decide +kernel)
  rcases @block_evaluates_and_answers copyingMachine (.object 7) (.object 7) (.ofInt 1) 1
    (by decide +kernel) agrees_copyingMachine (by decide +kernel)
    ⟨by decide +kernel, by decide +kernel⟩
    ⟨by decide +kernel, by decide +kernel⟩ (by decide +kernel)
    ⟨.object 6, by decide +kernel, by decide +kernel⟩ (by decide +kernel) fits true made copied rfl
    with ⟨block, receiver, creates, lives⟩
  have same : block = .object 9 := by
    have top : made.heap.fetch made.registers.activeContext (made.registers.sp - 0)
        = .ok (.object 9) := by decide +kernel
    exact Except.ok.inj (creates.top.2.symm.trans top)
  subst same
  have knows : later.Knows (.object 9) (.object 7) (.object 6) (.object 8) 1 2 :=
    { isBlock := ⟨_, _, rfl, rfl, rfl⟩
      takes := by decide +kernel
      belongs := by decide +kernel
      runs := by decide +kernel
      receives := by decide +kernel
      starts := ⟨MethodHeader.pack 0 0 0 0 false, by decide +kernel, by decide +kernel⟩ }
  have agrees : later.Agrees :=
    { homeOf := ⟨.object 6, by decide +kernel, by decide +kernel⟩
      runs := by decide +kernel
      receives := by decide +kernel
      next := ⟨MethodHeader.pack 0 0 0 0 false, by decide +kernel, by decide +kernel⟩
      inside := ⟨#[.object 0, .object 0, .object 0, .object 6, .object 0, .object 8, .object 9,
        .ofInt 3, .object 0, .object 0, .object 0], by decide +kernel, by decide +kernel⟩
      fits := by decide +kernel }
  have fails := (lives made _ _ creates.knows).1 0 creates.top (.inl (by decide))
  have evaluated := (lives later _ _ knows).2
  rcases evaluated agrees (by decide +kernel) ⟨by decide +kernel, by decide +kernel⟩
    (by decide +kernel) (by decide +kernel) with ⟨ends, evaluates⟩
  have started : Reply.blockValue 1 later = .ok true started :=
    Run.ended?_eq_some.mp (by decide +kernel)
  rcases evaluates _ _ started with ⟨-, evaluates, answers⟩
  rcases answers _ evaluates.leavesCaller (.ofInt 3) ⟨by decide +kernel, by decide +kernel⟩
    (Run.sendToClass 1) with ⟨answers, returns⟩
  rcases returns (by decide +kernel) ⟨rfl, by decide +kernel, by decide +kernel⟩ with
    ⟨⟨⟩, final, returned⟩
  exact ⟨copied, fails, started, final, returned, answers () final returned⟩

/-- What a block knows can be written over like any field: after that it is evaluated at
another place. -/
theorem not_evaluates_copyingMachine :
    let context : Value := .object 7
    let block : Value := .object 9
    let made := (Reply.blockCopy 1).left copyingMachine
    let writing := (Run.push (.ofInt 8)).left ((Run.push (.ofInt 5)).left made)
    let written := (Reply.setInstanceVariableAt 2).left writing
    let later := (Run.push (.ofInt 3)).left ((Run.push block).left written)
    let started := (Reply.blockValue 1).left later
    copyingMachine.heap.Consistent ∧ copyingMachine.Agrees ∧
      copyingMachine.Operand 1 context ∧ copyingMachine.heap.HomeOf context context ∧
      copyingMachine.heap.fetch context ContextField.method
        = .ok copyingMachine.registers.method ∧
      Reply.blockCopy 1 copyingMachine = .ok true made ∧
      made.Operand 0 block ∧
      Reply.setInstanceVariableAt 2 writing = .ok true written ∧
      later.Operand 1 block ∧ later.registers.activeContext ≠ block ∧
      Reply.blockValue 1 later = .ok true started ∧
      started.registers.activeContext = block ∧
      started.registers.pc ≠ copyingMachine.registers.pc + 2 := by
  intro context block made writing written later started
  exact ⟨by decide +kernel, agrees_copyingMachine, ⟨by decide +kernel, by decide +kernel⟩,
    ⟨.object 6, by decide +kernel, by decide +kernel⟩, by decide +kernel,
    Run.ended?_eq_some.mp (by decide +kernel), ⟨by decide +kernel, by decide +kernel⟩,
    Run.ended?_eq_some.mp (by decide +kernel), ⟨by decide +kernel, by decide +kernel⟩,
    by decide +kernel, Run.ended?_eq_some.mp (by decide +kernel), by decide +kernel,
    by decide +kernel⟩

end Machine

end Smalltalk
