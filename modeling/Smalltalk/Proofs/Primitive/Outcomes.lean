import Smalltalk.Proofs.Frame.Saved
import Smalltalk.Proofs.Indexed.Asking
import Smalltalk.Proofs.Machine.Evaluation
import Smalltalk.Proofs.Machine.References
import Smalltalk.Proofs.Primitive.Deliveries
import Smalltalk.Proofs.Primitive.Performs

namespace Smalltalk

/-! A primitive that succeeds replaces the receiver and the arguments by an answer. As long as
the same context is active, the stack pointer is at the place of the receiver, where the answer
lies, and what lies below has not changed. An exchange of identities is the only thing that
reaches below the receiver, because it replaces references wherever they are. -/

namespace Machine

/-- An answer lies in the place `base` of a receiver, on top of the stack of the same context.
What lies below has been replaced everywhere in the same way, or not at all. -/
structure Answered (start : Machine) (base : Nat) (replace : Value → Value) (answer : Value)
    (after : Machine) : Prop where
  active : after.registers.activeContext = start.registers.activeContext
  sp : after.registers.sp = base
  answer : after.heap.fetch start.registers.activeContext base = .ok answer
  below : ∀ index, ContextField.frame ≤ index → index < base →
    after.heap.fetch start.registers.activeContext index
      = (start.heap.fetch start.registers.activeContext index).map replace

/-- A receiver in the place `base` of a frame, with the arguments of the message being sent
on top of it. The receiver is not the active context. -/
structure Addressed (machine : Machine) (base : Nat) (receiver : Value) : Prop where
  consistent : machine.heap.Consistent
  place : machine.registers.sp = base + machine.registers.argumentCount
  framed : ContextField.frame ≤ base
  held : machine.heap.fetch machine.registers.activeContext base = .ok receiver
  apart : receiver ≠ machine.registers.activeContext

/-- A context can keep a place as its stack pointer. -/
def Keepable (place : Nat) : Prop := (place : Int) ≤ SmallInt.maximum

end Machine

open Machine

/-- What a primitive of a manner has done when it has succeeded with the same context active.
Whether arguments that a primitive does not know of stay on the stack is left open. -/
def Manner.Outcome (start : Machine) (base : Nat) (receiver : Value) (after : Machine) :
    Manner → Prop
  | answers => ∃ between answer, start.Rests base between ∧
      Puts start.registers.argumentCount between answer after ∧ start.Answered base id answer after
  | drops => start.Answered base id receiver after
  | leaves => start.registers.argumentCount = 0 → start.Answered base id receiver after
  | passes => start.registers.argumentCount = 0 → Keepable base →
      start.Answered base id receiver after
  | suspends => Keepable base → start.Answered base id start.registers.specials.nil after
  | exchanges twoWay => ∃ sources targets replace,
      Reply.arrayOperands start.registers.argumentCount start
        = .ok (some (sources, targets)) start ∧
      Replaces sources targets twoWay replace ∧
      start.Answered base replace (replace receiver) after
  | enters | performs => False

/-- How the primitive with a number has answered a message. -/
inductive Machine.Concluded (machine : Machine) (base : Nat) (receiver : Value)
    (after : Machine) : (number : Nat) → Prop
  | quick {number : Nat} {answer : Value}
      (quick : Run.quickSelf ≤ number ∧ number ≤ Run.quickLast)
      (found : Run.quickResult number receiver machine = .ok (some answer) machine)
      (answered : machine.Answered base id answer after) :
      Concluded machine base receiver after number
  | numbered {number : Nat} {primitive : Primitive}
      (slow : ¬ (Run.quickSelf ≤ number ∧ number ≤ Run.quickLast))
      (named : Primitive.ofNumber? number = some primitive)
      (outcome : primitive.manner.Outcome machine base receiver after) :
      Concluded machine base receiver after number

/-- The primitive with a number performs a message, and the machine that has found a method for
it. What the primitive does besides does not depend on how messages are sent. -/
def Machine.Finds (machine : Machine) (number : Nat) (found : Machine) : Prop :=
  Run.Performs number ∧ ∃ selector count species between,
    (∀ sender : Reply.Sender, Run.respond sender number machine
      = (sender selector count species >>= fun _ => pure true) between) ∧
      Run.findMethodBy Run.resolveMessage species (between.sending selector count species)
        = .ok () found

/-- The primitive with a number leads to another one, which the methods of messages have that
are performed one after the other. -/
inductive Machine.Relays : Machine → Nat → Machine → Nat → Prop
  | refl {machine : Machine} {number : Nat} : Relays machine number machine number
  | step {machine found last : Machine} {number final : Nat} (finds : machine.Finds number found)
      (relays : Relays found found.registers.primitiveIndex last final) :
      Relays machine number last final

/-- A method has been found whose primitive has not answered, or which has none. -/
def Machine.Unanswered (found tried : Machine) : Prop :=
  found.registers.primitiveIndex = 0 ∧ tried = found ∨
    ∃ depth, Run.respond (Run.sendToClass depth) found.registers.primitiveIndex found
      = .ok false tried

/-- The method of a message that is performed in the end has been activated. -/
def Machine.Activated (start : Machine) (number : Nat) (after : Machine) : Prop :=
  ∃ last final found tried, start.Relays number last final ∧ last.Finds final found ∧
    found.Unanswered tried ∧ Run.activateMethod tried = .ok () after

namespace Machine

variable {start between last after : Machine} {bottom base : Nat} {receiver answer : Value}

/-- A primitive that performs no message leads to no other one. -/
theorem Relays.eq_of_direct {number final : Nat} (relays : start.Relays number last final)
    (direct : ¬ Run.Performs number) : last = start ∧ final = number := by
  cases relays with
  | refl => exact ⟨rfl, rfl⟩
  | step finds _ => exact absurd finds.1 direct

/-! ## What lies in the place of the receiver -/

namespace Addressed

theorem rests (addressed : start.Addressed base receiver) : start.Rests base start :=
  .of_fetch addressed.consistent addressed.held

theorem sp_sub (addressed : start.Addressed base receiver) :
    start.registers.sp - start.registers.argumentCount = base := by
  rw [addressed.place]
  exact Nat.add_sub_cancel ..

theorem harmless (addressed : start.Addressed base receiver)
    (array : start.registers.specials.array ≠ start.registers.activeContext) :
    start.Harmless base start.registers.argumentCount := by
  refine ⟨fun found => ?_, fun same => absurd same array, .inr ?_⟩
  · rw [addressed.sp_sub, addressed.held] at found
    exact absurd (Except.ok.inj found) addressed.apart
  · rw [addressed.sp_sub]
    exact ⟨addressed.framed, Nat.le_refl base⟩

/-- The receiver of a message that is performed is the same. -/
theorem of_carries (addressed : start.Addressed base receiver) (carries : start.Carries base last)
    (place : last.registers.sp = base + last.registers.argumentCount) :
    last.Addressed base receiver where
  consistent := carries.consistent
  place := place
  framed := addressed.framed
  held := by
    rw [carries.active, carries.slots.fetch_eq addressed.framed (Nat.le_refl base)]
    exact addressed.held
  apart same := addressed.apart (same.trans carries.active)

end Addressed

theorem Answered.of_slots (addressed : start.Addressed base receiver)
    (active : after.registers.activeContext = start.registers.activeContext)
    (sp : after.registers.sp = base)
    (slots : start.heap.KeepsSlots after.heap start.registers.activeContext base) :
    start.Answered base id receiver after where
  active := active
  sp := sp
  answer := (slots.fetch_eq addressed.framed (Nat.le_refl base)).trans addressed.held
  below index framed under := by
    rw [slots.fetch_eq framed under.le]
    cases start.heap.fetch start.registers.activeContext index <;> rfl

theorem Puts.answered (addressed : start.Addressed base receiver)
    (rests : start.Rests base between)
    (puts : Puts start.registers.argumentCount between answer after) :
    start.Answered base id answer after := by
  have framed := addressed.framed
  have frame : ContextField.frame = 6 := rfl
  have place : between.registers.sp - (start.registers.argumentCount + 1) + 1 = base := by
    rw [rests.sp, addressed.place]
    omega
  rcases puts with ⟨held, changed⟩
  rw [place] at changed
  subst changed
  refine ⟨rests.active, rfl, rests.active ▸ held, fun index framed under => ?_⟩
  change (between.heap.setField _ base answer).fetch _ index = _
  rw [Heap.fetch_setField_other (.inr under.ne'), rests.slots.fetch_eq framed under.le]
  cases start.heap.fetch start.registers.activeContext index <;> rfl

/-- A context that is loaded again has the stack pointer that it kept. -/
theorem Switched.sp_eq (switched : start.Switched bottom after)
    (same : after.registers.activeContext = start.registers.activeContext)
    (framed : ContextField.frame ≤ start.registers.sp)
    (keepable : Keepable start.registers.sp) : after.registers.sp = start.registers.sp := by
  have frame : ContextField.frame = 6 := rfl
  rcases switched.restored with ⟨depth, kept, sp⟩
  rw [same] at kept
  have known : (Value.ofWrapped (start.registers.sp - (ContextField.frame - 1 : Nat))).int?
      = some (start.registers.sp - (ContextField.frame - 1 : Nat) : Int) := by
    have least : SmallInt.minimum ≤ 0 := by decide
    rw [Keepable] at keepable
    apply Value.int?_ofWrapped <;> omega
  have saved := Heap.fetchInt_of_fetch switched.saved known
  cases kept.symm.trans saved
  rw [sp]
  omega

theorem Switched.answered (addressed : start.Addressed base receiver)
    (alone : start.registers.argumentCount = 0) (keepable : Keepable base)
    (switched : start.Switched base after)
    (same : after.registers.activeContext = start.registers.activeContext) :
    start.Answered base id receiver after := by
  have sp : start.registers.sp = base := by rw [addressed.place, alone, Nat.add_zero]
  refine .of_slots addressed same ?_ switched.slots
  rw [← sp]
  exact switched.sp_eq same (sp ▸ addressed.framed) (sp ▸ keepable)

/-- An answer stays where it is while its context is left and loaded again. -/
theorem Answered.switched {replace : Value → Value} (addressed : start.Addressed base receiver)
    (answered : start.Answered base replace answer between) (keepable : Keepable base)
    (switched : between.Switched base after)
    (same : after.registers.activeContext = between.registers.activeContext) :
    start.Answered base replace answer after where
  active := same.trans answered.active
  sp := by
    rw [switched.sp_eq same (answered.sp ▸ addressed.framed) (answered.sp ▸ keepable)]
    exact answered.sp
  answer := by
    rw [← answered.active, switched.slots.fetch_eq addressed.framed (Nat.le_refl base),
      answered.active]
    exact answered.answer
  below index framed under := by
    rw [← answered.active, switched.slots.fetch_eq framed under.le, answered.active]
    exact answered.below index framed under

theorem Exchanged.answered {sources targets : List Value} {twoWay : Bool}
    (addressed : start.Addressed base receiver)
    (exchanged : start.Exchanged sources targets twoWay
      (start.registers.sp - start.registers.argumentCount) after)
    (same : after.registers.activeContext = start.registers.activeContext) :
    ∃ replace, Replaces sources targets twoWay replace ∧
      start.Answered base replace (replace receiver) after := by
  rcases exchanged with ⟨rooted, accepted, rfl⟩
  rcases Rooted.become_eq_ok_iff.mp accepted with ⟨redirection, checked, rfl⟩
  rcases Heap.redirection_eq_ok_iff.mp checked with
    ⟨origins, goals, rfl, rfl, exchangeable, rfl⟩
  have renamed := Heap.fetch_rename addressed.consistent.toTabled
    (Redirection.apply (origins.zip goals ++ if twoWay then goals.zip origins else []))
  exact ⟨_, exchangeable.replaces, same, addressed.sp_sub,
    (renamed _ base).trans (congrArg (Except.map _) addressed.held),
    fun index _ _ => renamed _ index⟩

/-- A primitive that performs no message leaves the answer in the place of the receiver. -/
theorem Replied.concluded {number : Nat} (addressed : start.Addressed base receiver)
    (replied : start.Replied base after number)
    (same : after.registers.activeContext = start.registers.activeContext) :
    start.Concluded base receiver after number := by
  cases replied with
  | quick quick onStack found puts =>
    rw [addressed.sp_sub, addressed.held] at onStack
    cases onStack
    exact .quick quick found (puts.answered addressed addressed.rests)
  | @numbered primitive slow named effect =>
    refine .numbered slow named ?_
    cases manner : primitive.manner <;> rw [manner] at effect
    case answers =>
      rcases effect with ⟨between, rests, answer, puts⟩
      exact ⟨between, answer, rests, puts, puts.answered addressed rests⟩
    case drops =>
      rcases effect with ⟨between, rests, rfl⟩
      refine .of_slots addressed same ?_ rests.slots
      rw [← addressed.sp_sub, ← rests.sp]
    case leaves =>
      intro alone
      refine .of_slots addressed same ?_ effect.slots
      rw [effect.sp, addressed.place, alone, Nat.add_zero]
    case passes =>
      intro alone keepable
      rcases effect with rests | switched
      · refine .of_slots addressed same ?_ rests.slots
        rw [rests.sp, addressed.place, alone, Nat.add_zero]
      · exact switched.answered addressed alone keepable same
    case suspends =>
      intro keepable
      rcases effect with ⟨between, settled, rests, puts, switched⟩
      have answered := puts.answered addressed rests
      exact answered.switched addressed keepable (answered.sp ▸ switched)
        (same.trans answered.active.symm)
    case enters =>
      rcases effect with ⟨-, -, entered⟩
      rw [addressed.sp_sub, addressed.held, same] at entered
      exact addressed.apart (Except.ok.inj entered)
    case exchanges twoWay =>
      rcases effect with ⟨sources, targets, found, exchanged⟩
      rcases exchanged.answered addressed same with ⟨replace, replaces, answered⟩
      exact ⟨sources, targets, replace, found, replaces, answered⟩
    case performs => exact effect.elim

end Machine

/-! ## Arguments that are looked at -/

/-- How many arguments a primitive looks at. The cursor has a mask only if one is passed, and
a block is given those that are passed. -/
def Primitive.reads : Primitive → Nat
  | .integer _ | .compareIntegers _ | .makePoint | .float _ | .compareFloats _ | .elementAt _
  | .literalAt | .basicNewWithSize | .instanceVariableAt | .blockCopy | .perform
  | .setMousePoint | .identical | .become _ | .relinquish => 1
  | .setElementAt _ | .literalAtPut | .instanceVariableAtPut | .newMethod
  | .performWithArguments | .signalAt => 2
  | .performInSuperclass => 3
  | .replaceFromTo => 4
  | _ => 0

/-- How many arguments the primitive with a number looks at. -/
def Run.reads (number : Nat) : Nat := ((Primitive.ofNumber? number).map Primitive.reads).getD 0

namespace Run

variable {α : Type} {count least : Nat}

/-- A computation only succeeds if there are so many arguments. -/
def Requires (count least : Nat) (run : Run Bool) : Prop :=
  ∀ machine, run.Ensures machine fun succeeded _ => succeeded = true → least ≤ count

namespace Requires

theorem bind {run : Run α} {next : α → Run Bool}
    (second : ∀ result, Requires count least (next result)) : Requires count least (run >>= next) :=
  fun _ => .later fun result between => second result between

theorem refuse : Requires count least (Pure.pure false) := fun _ => .pure nofun

theorem of_le {run : Run Bool} (enough : least ≤ count) : Requires count least run :=
  fun _ _ _ _ _ => enough

/-- An argument that is not passed cannot be read. -/
theorem argument {index : Nat} {next : Value → Run Bool}
    (second : index < count → ∀ value, Requires count least (next value)) :
    Requires count least (argument count index >>= next) :=
  fun machine => (argument_finds machine count index).bind fun value between found =>
    second found.1 value between

/-- The number of arguments may be asked for at once. -/
theorem checked {run : Run Bool} :
    Requires count least (if count ≠ least then Pure.pure false else run) := by
  split
  · exact refuse
  · exact of_le (by omega)

end Requires

end Run

namespace Reply

open Run

variable {count : Nat} {send : Sender}

theorem perform_requires : Requires count 1 (perform send count) := by
  unfold perform
  split
  · exact .refuse
  · exact .of_le (by omega)

theorem basicNewWithSize_requires : Requires count 1 (basicNewWithSize count) :=
  .bind fun _ => .argument fun enough _ => .of_le enough

theorem fieldAt_requires {size : Nat} : Requires count 1 (fieldAt size count) :=
  .argument fun enough _ => .of_le enough

theorem setFieldAt_requires {size : Nat} : Requires count 2 (setFieldAt size count) := by
  refine .argument fun _ place => ?_
  split
  · exact .refuse
  · exact .argument fun enough _ => .of_le enough

theorem literalAt_requires : Requires count 1 (literalAt count) := by
  refine .bind fun _ => .bind fun size => ?_
  cases size with
  | none => exact .refuse
  | some size => exact fieldAt_requires

theorem setLiteralAt_requires : Requires count 2 (setLiteralAt count) := by
  refine .bind fun _ => .bind fun size => ?_
  cases size with
  | none => exact .refuse
  | some size => exact setFieldAt_requires

end Reply

open Reply Run in
/-- A primitive that succeeds has been passed every argument that it looks at. -/
theorem Primitive.run_requires (send : Reply.Sender) (primitive : Primitive) (count : Nat) :
    Requires count primitive.reads (primitive.run send count) := by
  cases primitive
  case float operation => cases operation <;> exact .checked
  case perform => exact perform_requires
  case literalAt => exact literalAt_requires
  case literalAtPut => exact setLiteralAt_requires
  case basicNewWithSize => exact basicNewWithSize_requires
  case instanceVariableAt => exact .bind fun _ => .bind fun _ => fieldAt_requires
  case instanceVariableAtPut => exact .bind fun _ => .bind fun _ => setFieldAt_requires
  case integer | compareIntegers | makePoint | compareFloats | elementAt | setElementAt | newMethod
    | blockCopy | performWithArguments | performInSuperclass | setMousePoint | identical | become
    | relinquish | signalAt | replaceFromTo => exact .checked
  all_goals exact .of_le (Nat.zero_le count)

namespace Run

/-- Quick primitives are not in the table. -/
theorem reads_of_quick {number : Nat} (quick : quickSelf ≤ number) : reads number = 0 := by
  rw [reads]
  cases named : Primitive.ofNumber? number with
  | none => rfl
  | some primitive => exact absurd quick (Primitive.number_of_ofNumber? named).2.not_ge

theorem respond_requires (send : Reply.Sender) (number : Nat) (machine : Machine) :
    (respond send number).Ensures machine fun succeeded _ =>
      succeeded = true → reads number ≤ machine.registers.argumentCount := by
  by_cases quick : quickSelf ≤ number ∧ number ≤ quickLast
  · rw [reads_of_quick quick.1]
    exact fun _ _ _ _ => Nat.zero_le _
  · rw [respond, if_neg quick, reads]
    cases Primitive.ofNumber? number with
    | none => exact .pure fun failed => absurd failed Bool.false_ne_true
    | some primitive =>
      refine (ensures_getRegisters machine).bindExactly ?_
      refine (primitive.run_requires send _ machine).bind fun succeeded _ enough => ?_
      cases succeeded with
      | true => exact .pure enough
      | false => exact .later fun _ _ => .pure fun failed => absurd failed Bool.false_ne_true

/-! ## Messages that are performed -/

/-- A message that comes to its end has found a method, whose primitive has answered, or which
has been activated. -/
theorem sendToClass_ends (depth : Nat) (selector : Value) (count : Nat) (species : Value)
    (machine : Machine) :
    (sendToClass (depth + 1) selector count species).Ensures machine fun _ after =>
      ∃ found, findMethodBy resolveMessage species (machine.sending selector count species)
          = .ok () found ∧
        (respond (sendToClass depth) found.registers.primitiveIndex found = .ok true after ∨
          ∃ tried, found.Unanswered tried ∧ activateMethod tried = .ok () after) := by
  refine (ensures_modifyRegisters machine _).bindChange fun _ => ?_
  refine Ensures.bind (fun _ _ resolved => resolved) fun _ found resolved => ?_
  refine (ensures_getRegisters found).bindExactly ?_
  dsimp only
  split
  · refine Ensures.bind (fun _ _ ran => ran) fun answered tried ran => ?_
    cases answered with
    | true => exact .pure ⟨found, resolved, .inl ran⟩
    | false =>
      exact fun _ _ activated => ⟨found, resolved, .inr ⟨tried, .inr ⟨depth, ran⟩, activated⟩⟩
  · rename_i none
    refine fun _ _ activated => ⟨found, resolved, .inr ⟨found, .inl ⟨?_, rfl⟩, activated⟩⟩
    exact Nat.eq_zero_of_not_pos none

/-- A primitive that succeeds in performing a message sends it from a stack that holds its
receiver in the same place. -/
theorem finds_of_performs {start after : Machine} {number base : Nat} {receiver : Value}
    {send : Reply.Sender} (addressed : start.Addressed base receiver) (performs : Performs number)
    (answered : respond send number start = .ok true after) :
    ∃ selector count species between,
      (∀ sender : Reply.Sender, respond sender number start
        = (sender selector count species >>= fun _ => pure true) between) ∧
      start.Carries base (between.sending selector count species) ∧
      between.registers.sp = base + count := by
  have sends {ends : Machine → Prop} {sender : Reply.Sender}
      (reaches : Reply.Reaches ends start base base sender) :=
    respond_performs reaches addressed.rests addressed.place (Nat.le_refl base) performs
  rcases respond_delegates number start with
    ⟨outcome, same⟩ | ⟨selector, count, species, between, -, same⟩
  · -- A sender that fails would not matter.
    have never : Reply.Reaches (fun _ => False) start base base fun _ _ _ =>
        throw .nestedTooDeep := fun _ _ _ _ _ _ => .throw
    have failed := (same fun _ _ _ => throw .nestedTooDeep).trans ((same send).symm.trans answered)
    exact ((sends never true after failed).2 rfl).elim
  · -- The message is looked at as it is announced.
    refine ⟨selector, count, species, between, same, ?_⟩
    have announces : Reply.Reaches
        (fun after => start.Carries base after ∧
          after.registers.sp = base + after.registers.argumentCount) start base base
        fun selector count species => modifyRegisters fun registers =>
          { registers with
            messageSelector := selector, argumentCount := count, lookupClass := species } := by
      intro selector count species machine carries place
      refine (ensures_modifyRegisters machine _).mono ?_
      rintro _ _ rfl
      exact ⟨carries.of_same rfl rfl rfl rfl, place⟩
    exact (sends announces true (between.sending selector count species) (same _)).2 rfl

/-- A method is found for the message, and the receiver is still in its place. -/
theorem found_of_performs {start after : Machine} {depth number base : Nat} {receiver : Value}
    (addressed : start.Addressed base receiver) (performs : Performs number)
    (answered : respond (sendToClass (depth + 1)) number start = .ok true after) :
    ∃ found, start.Finds number found ∧ start.Carries base found ∧
      found.registers.sp = base + found.registers.argumentCount ∧
      (respond (sendToClass depth) found.registers.primitiveIndex found = .ok true after ∨
        ∃ tried, found.Unanswered tried ∧ activateMethod tried = .ok () after) := by
  rcases finds_of_performs addressed performs answered with
    ⟨selector, count, species, between, uniform, carries, place⟩
  have sent := (uniform (sendToClass (depth + 1))).symm.trans answered
  cases ended : sendToClass (depth + 1) selector count species between with
  | error stop stopped => cases (bind_error ended).symm.trans sent
  | ok _ _ =>
    cases (bind_ok ended).symm.trans sent
    rcases sendToClass_ends depth _ _ _ _ () after ended with ⟨found, resolved, ends⟩
    rcases findMethodBy_carries carries.rests (Nat.le_refl base) place species () found resolved
      with ⟨later, passed⟩
    have finds : start.Finds number found := ⟨performs, _, _, _, _, uniform, resolved⟩
    exact ⟨found, finds, carries.trans later, passed, ends⟩

theorem concluded_of_direct {start after : Machine} {number base : Nat} {receiver : Value}
    {send : Reply.Sender} (addressed : start.Addressed base receiver)
    (array : start.registers.specials.array ≠ start.registers.activeContext)
    (direct : ¬ Performs number) (answered : respond send number start = .ok true after)
    (same : after.registers.activeContext = start.registers.activeContext) :
    start.Concluded base receiver after number := by
  have replies := respond_replies addressed.rests (addressed.harmless array) send direct
  exact ((replies true after answered).2 rfl).concluded addressed same

/-- A machine that is about to exchange the identities of two objects. The first one lies on
the stack, below the arrays that hold them. -/
def exchangingMachine : Machine :=
  let nil : Value := .object 0
  let machine := sampleMachine
    [sampleNode .zero #[], sampleNode nil #[.object 3], sampleNode nil #[.object 4],
      sampleNode .zero #[], sampleNode .zero #[], sampleNode .zero #[],
      sampleMethod 0 [] #[120],
      sampleNode .zero
        #[nil, nil, nil, .object 6, nil, .object 8, .object 3, .object 1, .object 2],
      sampleNode .zero #[]]
    9 nil
  { machine with registers := { machine.registers with sp := 8, argumentCount := 1 } }

/-- A machine that is about to set the timer. Its active context is at the same time the array
of special objects, one of which lies on the stack below the receiver. -/
def overlappingMachine : Machine :=
  let nil : Value := .object 0
  let fixed := #[nil, nil, nil, .object 6, nil, .object 8]
  let machine := sampleMachine
    [sampleNode .zero #[], sampleNode .zero #[], sampleNode .zero #[], sampleNode .zero #[],
      sampleNode .zero #[], sampleNode .zero #[], sampleMethod 0 [] #[120],
      sampleNode .zero (fixed ++ Array.replicate 25 nil ++ #[.object 8, .ofInt 5]),
      sampleNode .zero #[]]
    9 nil
  { machine with registers := { machine.registers with
      sp := 32
      argumentCount := 2
      specials := { machine.registers.specials with array := .object 7 } } }

end Run

end Smalltalk
