import Smalltalk.Proofs.Frame.LocalReturn
import Smalltalk.Proofs.Frame.Unwind
import Smalltalk.Proofs.Indexed.Asking
import Smalltalk.Proofs.Machine.Finishes

namespace Smalltalk

/-! A block that is evaluated gets the active context for its caller. Whether somebody waits
for it already is seen from the caller that it has, which tells nothing of a block that a
process started with. -/

namespace Heap.Ascends

variable {before after : Heap} {target context middle next : Value} {left others : List Value}

theorem frame (ascends : before.Ascends target context left)
    (same : ∀ other ∈ left,
      after.fetch other ContextField.sender = before.fetch other ContextField.sender) :
    after.Ascends target context left := by
  induction ascends with
  | arrived => exact .arrived
  | sent away found _ induction =>
    refine .sent away ((same _ (List.mem_cons_self ..)).trans found) (induction ?_)
    exact fun other member => same other (List.mem_cons_of_mem _ member)

/-- The sender of a context on the way is on the way, or it is the target. -/
theorem sender_of_mem (ascends : before.Ascends target context left) (member : middle ∈ left)
    (found : before.fetch middle ContextField.sender = .ok next) :
    next ∈ left ∨ next = target ∧ left.getLast? = some middle := by
  induction ascends with
  | arrived => cases member
  | @sent context sender above away sent ascends induction =>
    rcases List.mem_cons.mp member with rfl | inside
    · rw [found] at sent
      cases sent
      cases ascends with
      | arrived => exact .inr ⟨rfl, rfl⟩
      | sent _ _ _ => exact .inl (by simp)
    · refine (induction inside).imp (List.mem_cons_of_mem _) (And.imp_right fun last => ?_)
      rw [List.getLast?_cons, last]
      rfl

/-- The last context on the way was sent from the target. -/
theorem sender_of_last (ascends : before.Ascends target context left)
    (last : left.getLast? = some middle) :
    before.fetch middle ContextField.sender = .ok target := by
  induction ascends with
  | arrived => cases last
  | @sent context sender above away sent ascends induction =>
    cases ascends with
    | arrived =>
      cases last
      exact sent
    | sent _ _ _ =>
      refine induction ?_
      rwa [List.getLast?_cons_cons] at last

/-- As long as only the sender of one context on the way is another one, the way leads to
that context. -/
theorem mem_of_frame (ascends : before.Ascends target context left) (member : middle ∈ left)
    (same : ∀ other, other ≠ middle →
      after.fetch other ContextField.sender = before.fetch other ContextField.sender)
    (again : after.Ascends target context others) : middle ∈ others := by
  induction ascends generalizing others with
  | arrived => cases member
  | @sent context sender above away found ascends induction =>
    cases again with
    | arrived => exact absurd rfl away
    | sent _ foundAgain again =>
      by_cases here : context = middle
      · exact here ▸ List.mem_cons_self ..
      · have inside := (List.mem_cons.mp member).resolve_left (Ne.symm here)
        have sent := (foundAgain.symm.trans (same context here)).trans found
        cases sent
        exact List.mem_cons_of_mem _ (induction inside again)

/-- When a context gets the first one of a way for its sender, its own way comes to the end
unless it led over that context. -/
theorem enter_iff (ascends : before.Ascends target context left)
    (joins : after.fetch middle ContextField.sender = .ok context)
    (same : ∀ other, other ≠ middle →
      after.fetch other ContextField.sender = before.fetch other ContextField.sender) :
    (∃ others, after.Ascends target middle others) ↔ middle ∉ left := by
  constructor
  · rintro ⟨others, again⟩ member
    have nodup := again.nodup
    cases again with
    | arrived => exact ascends.target_not_mem member
    | sent _ found rest =>
      rw [joins] at found
      cases found
      exact (List.nodup_cons.mp nodup).1 (ascends.mem_of_frame member same rest)
  · intro outside
    by_cases arrived : middle = target
    · exact ⟨[], arrived ▸ .arrived⟩
    · refine ⟨middle :: left, .sent arrived joins (ascends.frame fun other member => ?_)⟩
      exact same other fun equal => outside (equal ▸ member)

end Heap.Ascends

namespace Machine

variable {machine after : Machine} {stop block : Value} {contexts : List Value}

/-- The contexts that are active or wait, one for the next, and what the last one was sent
from: nil, or nothing that could be followed. -/
structure Ascent (machine : Machine) (stop : Value) (contexts : List Value) : Prop where
  ascends : machine.heap.Ascends stop machine.registers.activeContext contexts
  proper : machine.registers.specials.nil ∉ contexts

/-- Nobody waits for the last context, and for it alone. -/
theorem Ascent.idle_iff (ascent : machine.Ascent stop contexts) (member : block ∈ contexts) :
    machine.Idle block ↔
      stop = machine.registers.specials.nil ∧ contexts.getLast? = some block := by
  constructor
  · intro idle
    rcases ascent.ascends.sender_of_mem member idle with inside | ⟨arrived, last⟩
    · exact absurd inside ascent.proper
    · exact ⟨arrived.symm, last⟩
  · rintro ⟨rfl, last⟩
    exact ascent.ascends.sender_of_last last

theorem Ascent.busy (ascent : machine.Ascent stop contexts) (member : block ∈ contexts)
    (waits : ¬ machine.Idle block) : machine.Busy block := by
  have sent : ∃ caller, machine.heap.fetch block ContextField.sender = .ok caller := by
    rcases ascent.ascends.of_mem member with ⟨rest, onwards, -⟩
    cases onwards with
    | arrived => exact absurd member ascent.ascends.target_not_mem
    | sent _ found _ => exact ⟨_, found⟩
  rcases sent with ⟨caller, found⟩
  refine ⟨caller, found, fun same => waits ?_⟩
  subst same
  exact found

/-- What comes of the evaluation of a block. It answers whether the block was entered. -/
structure EntersOnce (machine : Machine) (stop : Value) (contexts : List Value) (block : Value)
    (run : Run Bool) : Prop where
  refuses : block ∈ contexts → ¬ machine.Idle block →
    run machine = .ok false machine ∨ ∃ reason, run machine = .error reason machine
  enters : run.Ensures machine fun answered after =>
    if answered then
      after.registers.activeContext = block ∧ machine.Idle block ∧
        ((∃ later, after.heap.Ascends stop block later) ↔ block ∉ contexts)
    else after = machine

theorem EntersOnce.entered {run : Run Bool} (once : machine.EntersOnce stop contexts block run)
    (answered : run machine = .ok true after) :
    after.registers.activeContext = block ∧ machine.Idle block ∧
      ((∃ later, after.heap.Ascends stop block later) ↔ block ∉ contexts) :=
  once.enters true after answered

theorem EntersOnce.refused {run : Run Bool} (once : machine.EntersOnce stop contexts block run)
    (answered : run machine = .ok false after) : after = machine :=
  once.enters false after answered

/-- What comes of an instruction that evaluates a block. When it cannot, it sends the message
that asks the block for its value. -/
structure EntersOrSends (machine : Machine) (stop : Value) (contexts : List Value) (block : Value)
    (run send : Run Unit) : Prop where
  refuses : block ∈ contexts → ¬ machine.Idle block →
    run machine = send machine ∨ ∃ reason, run machine = .error reason machine
  enters : run machine = send machine ∨ run.Ensures machine fun _ after =>
    after.registers.activeContext = block ∧ machine.Idle block ∧
      ((∃ later, after.heap.Ascends stop block later) ↔ block ∉ contexts)

theorem EntersOnce.orSends {run : Run Bool} (once : machine.EntersOnce stop contexts block run)
    (send : Run Unit) :
    machine.EntersOrSends stop contexts block (do unless ← run do send) send where
  refuses member waits := by
    rcases once.refuses member waits with refused | ⟨reason, stopped⟩
    · exact .inl (Run.bind_ok refused)
    · exact .inr ⟨reason, Run.bind_error stopped⟩
  enters := by
    cases ran : run machine with
    | error reason between =>
      refine .inr fun result after ended => ?_
      cases (Run.bind_error ran).symm.trans ended
    | ok answered between =>
      cases answered with
      | false => exact .inl ((Run.bind_ok ran).trans (congrArg send (once.refused ran)))
      | true => exact .inr (.bindOk ran (.pure (once.entered ran)))

end Machine

namespace Reply

open Run Machine

variable {machine : Machine} {stop block : Value} {contexts : List Value} {count : Nat}

theorem blockValue_refuses (onBlock : machine.Operand count block) (busy : machine.Busy block) :
    blockValue count machine = .ok false machine ∨
      ∃ reason, blockValue count machine = .error reason machine := by
  rcases busy with ⟨caller, found, waits⟩
  rcases Heap.mem_references_of_fetch found with ⟨object, here, -⟩
  have isObject : ¬ block.isSmall = true := by
    cases block with
    | small n => cases here
    | object slot => exact Bool.false_ne_true
  rw [blockValue, bind_ok (operand_eq_ok onBlock), if_neg isObject,
    bind_ok (classOf_object here), bind_ok getRegisters_apply]
  split
  · exact .inl rfl
  · cases takes : machine.heap.fetchInt block BlockField.argumentCount with
    | error error => exact .inr ⟨_, bind_error (readHeap_error takes)⟩
    | ok number =>
      rw [fetchInt, bind_ok (readHeap_ok takes)]
      split
      · exact .inl rfl
      · rw [bind_ok (fetch_ok found), bind_ok getNil_apply, if_pos waits]
        exact .inl rfl

/-- The senders of all contexts are what they were, and the same context is active. -/
def Unsent (machine after : Machine) : Prop :=
  after.registers.activeContext = machine.registers.activeContext ∧
    ∀ context, after.heap.fetch context ContextField.sender
      = machine.heap.fetch context ContextField.sender

theorem store_unsent (object : Value) {index : Nat} (value : Value)
    (inside : index ≠ ContextField.sender) :
    Maintains (Unsent machine) (store object index value) fun _ => True := by
  intro between unsent
  refine (ensures_store between object index value).mono ?_
  rintro _ _ ⟨-, rfl⟩
  exact ⟨⟨unsent.1, fun context =>
    (Heap.fetch_setField_other (.inr inside)).trans (unsent.2 context)⟩, trivial⟩

theorem copyOperands_unsent (target : Value) (number : Nat) {index : Nat}
    (inside : ContextField.sender < index) :
    Maintains (Unsent machine) (copyOperands target number index) fun _ => True := by
  induction number generalizing index with
  | zero => exact .pure trivial
  | succ number induction =>
    have read : Maintains (Unsent machine) (operand number) fun _ => True := by
      refine maintains_getRegisters.bind fun registers _ => ?_
      exact .ite (fun _ => maintains_readHeap) fun _ => .fail
    refine read.bind fun value _ => ?_
    exact (store_unsent target value inside.ne').bind fun _ _ => induction (by omega)

theorem saveContext_unsent : Maintains (Unsent machine) saveContext fun _ => True :=
  fun _ ⟨active, kept⟩ => saveContext_writes.mono <| by
    rintro _ _ ⟨_, _, -, -, rfl, -, -⟩
    exact ⟨⟨active, fun other =>
      (Heap.fetch_withCounters (by decide) (by decide)).trans (kept other)⟩, trivial⟩

theorem activate_unsent (context : Value) :
    (activate context).Ensures machine fun _ after => after.registers.activeContext = context ∧
      ∀ other, after.heap.fetch other ContextField.sender
        = machine.heap.fetch other ContextField.sender := by
  refine (saveContext_unsent machine ⟨rfl, fun _ => rfl⟩).bind fun _ saved ⟨unsent, _⟩ => ?_
  refine (loadContext_loads context).mono ?_
  rintro _ _ ⟨_, _, _, _, _, _, -, -, -, -, -, -, rfl⟩
  exact ⟨rfl, unsent.2⟩

/-- A block that is entered gets the context that was active for its caller. -/
theorem blockValue_enters (onBlock : machine.Operand count block) :
    (blockValue count).Ensures machine fun answered after =>
      if answered then
        after.registers.activeContext = block ∧ machine.Idle block ∧
          after.heap.fetch block ContextField.sender = .ok machine.registers.activeContext ∧
          ∀ other, other ≠ block → after.heap.fetch other ContextField.sender
            = machine.heap.fetch other ContextField.sender
      else after = machine := by
  have read : Maintains (Unsent machine) (fetch block BlockField.initialPc) fun _ => True :=
    maintains_readHeap
  refine .bindOk (operand_eq_ok onBlock) ?_
  split
  · exact .pure rfl
  refine (classOf_climbs machine block).bindTo fun species _ => ?_
  refine (ensures_getRegisters machine).bindExactly ?_
  split
  · exact .pure rfl
  refine (ensures_fetchInt machine _ _).bindTo fun number _ => ?_
  split
  · exact .pure rfl
  refine (ensures_fetch machine _ _).bindTo fun caller found => ?_
  refine (ensures_getNil machine).bindExactly ?_
  split
  · exact .pure rfl
  rename_i nobody
  have idle : machine.Idle block := found.trans (congrArg _ (not_not.mp nobody))
  refine (copyOperands_unsent block count (by decide) machine ⟨rfl, fun _ => rfl⟩).bind
    fun _ filled ⟨unsent, _⟩ => ?_
  refine (read filled unsent).bind fun initialPc counted ⟨unsent, _⟩ => ?_
  refine (store_unsent block initialPc (by decide) counted unsent).bind
    fun _ rewound ⟨unsent, _⟩ => ?_
  refine (store_unsent block _ (by decide) rewound unsent).bind fun _ ready ⟨unsent, _⟩ => ?_
  refine (ensures_getRegisters ready).bindExactly ?_
  refine (ensures_store ready _ _ _).bindTo fun _ joins => ?_
  refine (ensures_drop _ _).bindChange fun _ => ?_
  refine (activate_unsent block).bind fun _ after ⟨active, same⟩ => .pure ⟨active, idle, ?_, ?_⟩
  · rw [same, ← unsent.1]
    exact joins
  · intro other away
    rw [same, ← unsent.2]
    exact Heap.fetch_setField_other (.inl away.symm)

theorem blockValue_entersOnce (ascent : machine.Ascent stop contexts)
    (onBlock : machine.Operand count block) :
    machine.EntersOnce stop contexts block (blockValue count) where
  refuses member waits := blockValue_refuses onBlock (ascent.busy member waits)
  enters := (blockValue_enters onBlock).mono fun answered after outcome => by
    cases answered with
    | false => exact outcome
    | true =>
      rcases outcome with ⟨active, idle, joins, same⟩
      exact ⟨active, idle, ascent.ascends.enter_iff joins same⟩

theorem respond_entersOnce (once : machine.EntersOnce stop contexts block
      (blockValue machine.registers.argumentCount)) (sender : Sender) :
    machine.EntersOnce stop contexts block (respond sender 81) := by
  have known : Primitive.ofNumber? 81 = some .blockValue := rfl
  have responds := @respond_apply machine 81 _ sender known
  refine ⟨fun member waits => ?_, ?_⟩
  · rcases once.refuses member waits with refused | ⟨reason, stopped⟩
    · exact .inl (responds.trans (bind_ok refused))
    · exact .inr ⟨reason, responds.trans (bind_error stopped)⟩
  · exact respond_decides sender known once.enters

end Reply

namespace Machine

open Run

variable {machine : Machine} {stop : Value} {contexts : List Value}

/-- A block that is active or waits is not evaluated, unless it is the last of those that wait
and has nobody to answer to. Evaluating that one closes a circle. Every other block that is
evaluated comes before those that were active or waited. -/
theorem evaluation_enters_once (ascent : machine.Ascent stop contexts) (sender : Reply.Sender) :
    (∀ block ∈ contexts, machine.Idle block ↔
      stop = machine.registers.specials.nil ∧ contexts.getLast? = some block) ∧
    ∀ block,
      (machine.Operand machine.registers.argumentCount block →
        machine.EntersOnce stop contexts block (respond sender 81)) ∧
      (machine.Operand 0 block → machine.EntersOrSends stop contexts block
        (execute sender 201) (sendSpecial sender CommonMessage.value.index)) ∧
      (machine.Operand 1 block → machine.EntersOrSends stop contexts block
        (execute sender 202) (sendSpecial sender CommonMessage.valueWithArgument.index)) := by
  have value : Opcode.ofByte 201 = .common .value := by decide
  have valueWithArgument : Opcode.ofByte 202 = .common .valueWithArgument := by decide
  refine ⟨fun block member => ascent.idle_iff member, fun block => ⟨fun onBlock => ?_, ?_, ?_⟩⟩
  · exact Reply.respond_entersOnce (Reply.blockValue_entersOnce ascent onBlock) sender
  · intro onBlock
    rw [execute, value]
    exact (Reply.blockValue_entersOnce ascent onBlock).orSends _
  · intro onBlock
    rw [execute, valueWithArgument]
    exact (Reply.blockValue_entersOnce ascent onBlock).orSends _

/-- A machine that is about to evaluate a block with an argument. -/
def evaluating (machine : Machine) (block : Value) : Machine :=
  let asked := (push (.ofInt 3)).left ((push block).left machine)
  { asked with registers.argumentCount := 1 }

/-- A block is evaluated by its home, and not again while the home waits for it. A process that
starts with the block can evaluate it nevertheless, and then nobody comes after the block but
itself. -/
theorem evaluation_enters_once_copyingMachine :
    let nil : Value := .object 0
    let home : Value := .object 7
    let block : Value := .object 9
    let evaluate := respond (sendToClass 1) 81
    let made := (Reply.blockCopy 1).left copyingMachine
    let first := evaluating made block
    let again := evaluating (evaluate.left first) block
    let alone := evaluating ((loadContext block).left made) block
    first.Ascent nil [home] ∧ evaluate first = .ok true (evaluate.left first) ∧
      (∃ later, (evaluate.left first).heap.Ascends nil block later) ∧
      again.Ascent nil [block, home] ∧ evaluate again = .ok false again ∧
      alone.Ascent nil [block] ∧ evaluate alone = .ok true (evaluate.left alone) ∧
      ¬ ∃ later, (evaluate.left alone).heap.Ascends nil block later := by
  intro nil home block evaluate made first again alone
  have firstActive : first.registers.activeContext = home := by decide +kernel
  have againActive : again.registers.activeContext = block := by decide +kernel
  have aloneActive : alone.registers.activeContext = block := by decide +kernel
  have firstSent : first.heap.fetch home ContextField.sender = .ok nil := by decide +kernel
  have againSent : again.heap.fetch block ContextField.sender = .ok home ∧
      again.heap.fetch home ContextField.sender = .ok nil := by decide +kernel
  have isNil : again.registers.specials.nil = nil := by decide +kernel
  have aloneSent : alone.heap.fetch block ContextField.sender = .ok nil := by decide +kernel
  have firstAscent : first.Ascent nil [home] := by
    refine ⟨?_, by decide +kernel⟩
    rw [firstActive]
    exact .sent (by decide) firstSent .arrived
  have againAscent : again.Ascent nil [block, home] := by
    refine ⟨?_, by decide +kernel⟩
    rw [againActive]
    exact .sent (by decide) againSent.1 (.sent (by decide) againSent.2 .arrived)
  have aloneAscent : alone.Ascent nil [block] := by
    refine ⟨?_, by decide +kernel⟩
    rw [aloneActive]
    exact .sent (by decide) aloneSent .arrived
  have entered : evaluate first = .ok true (evaluate.left first) :=
    Run.ended?_eq_some.mp (by decide +kernel)
  have ends : (evaluate.ended? again).map Prod.fst = some false := by decide +kernel
  have circling : evaluate alone = .ok true (evaluate.left alone) :=
    Run.ended?_eq_some.mp (by decide +kernel)
  have asksFirst : first.Operand first.registers.argumentCount block :=
    ⟨by decide +kernel, by decide +kernel⟩
  have asksAgain : again.Operand again.registers.argumentCount block :=
    ⟨by decide +kernel, by decide +kernel⟩
  have asksAlone : alone.Operand alone.registers.argumentCount block :=
    ⟨by decide +kernel, by decide +kernel⟩
  have firstOnce := ((evaluation_enters_once firstAscent (sendToClass 1)).2 block).1 asksFirst
  have againOnce := ((evaluation_enters_once againAscent (sendToClass 1)).2 block).1 asksAgain
  have aloneOnce := ((evaluation_enters_once aloneAscent (sendToClass 1)).2 block).1 asksAlone
  refine ⟨firstAscent, entered, ?_, againAscent, ?_, aloneAscent, circling, ?_⟩
  · exact (firstOnce.entered entered).2.2.mpr (by decide)
  · have waits : ¬ again.Idle block := by
      intro idle
      have sent : again.registers.specials.nil = home :=
        Except.ok.inj (idle.symm.trans againSent.1)
      exact absurd (isNil.symm.trans sent) (by decide)
    rcases againOnce.refuses (List.mem_cons_self ..) waits with refused | ⟨reason, stopped⟩
    · exact refused
    · rcases Option.map_eq_some_iff.mp ends with ⟨⟨_, after⟩, ended, -⟩
      cases stopped.symm.trans (Run.ended?_eq_some.mp ended)
  · intro found
    exact (aloneOnce.entered circling).2.2.mp found (List.mem_cons_self ..)

end Machine

end Smalltalk
