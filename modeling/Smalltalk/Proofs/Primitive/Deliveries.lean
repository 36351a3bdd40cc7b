import Smalltalk.Proofs.Machine.Send
import Smalltalk.Proofs.Primitive.Manners

namespace Smalltalk

/-! A message is answered by a primitive of its method, or its method has to be activated.
Messages that perform messages pass the question on: in the end there is one message that is
answered, with its receiver in the same place of the frame. -/

open Machine

namespace Machine

/-- How a primitive with a number that performs no message answers the message being sent. -/
inductive Replied (machine : Machine) (bottom : Nat) (after : Machine) : (number : Nat) → Prop
  | quick {number : Nat} {receiver answer : Value}
      (quick : Run.quickSelf ≤ number ∧ number ≤ Run.quickLast)
      (onStack : machine.heap.fetch machine.registers.activeContext
        (machine.registers.sp - machine.registers.argumentCount) = .ok receiver)
      (found : Run.quickResult number receiver machine = .ok (some answer) machine)
      (puts : Puts machine.registers.argumentCount machine answer after) :
      Replied machine bottom after number
  | numbered {number : Nat} {primitive : Primitive}
      (slow : ¬ (Run.quickSelf ≤ number ∧ number ≤ Run.quickLast))
      (named : Primitive.ofNumber? number = some primitive)
      (effect : primitive.manner.Effect machine bottom machine.registers.argumentCount after) :
      Replied machine bottom after number

/-- How a message comes to its end. `base` is the place of its receiver in the frame. -/
inductive Sent (start : Machine) (bottom base : Nat) (after : Machine) : Prop
  | answered {last : Machine} {number : Nat} (carries : start.Carries bottom last)
      (operands : last.registers.sp = base + last.registers.argumentCount)
      (replied : last.Replied bottom after number) : Sent start bottom base after
  | activated {between : Machine} (carries : start.Carries bottom between)
      (ended : Run.activateMethod between = .ok () after) : Sent start bottom base after

end Machine

/-- Every message comes to its end in this way. -/
def Reply.Delivers (send : Reply.Sender) : Prop :=
  ∀ (selector : Value) (count : Nat) (species : Value) (machine : Machine) (bottom base : Nat),
    machine.Rests bottom machine → machine.Harmless bottom count →
    machine.registers.sp = base + count → bottom ≤ base →
    (send selector count species).Ensures machine fun _ after => machine.Sent bottom base after

/-- This is known after every message that is sent from a stack which holds its receiver in its
place. -/
def Reply.Reaches (ends : Machine → Prop) (start : Machine) (bottom base : Nat)
    (send : Reply.Sender) : Prop :=
  ∀ (selector : Value) (count : Nat) (species : Value) (machine : Machine),
    start.Carries bottom machine → machine.registers.sp = base + count →
    (send selector count species).Ensures machine fun _ after => ends after

namespace Machine

variable {start middle after : Machine} {bottom base count other : Nat}

theorem Stands.rests (stands : start.Stands bottom after) : after.Rests bottom after where
  consistent := stands.consistent
  active := rfl
  specials := rfl
  sp := rfl
  argumentCount := rfl
  slots := by
    rcases stands.slots with ⟨old, new, -, readable, -, -⟩
    exact .refl (stands.active ▸ readable)

/-- What has been passed on lies above the place of the receiver. -/
theorem Sent.of_carries (carries : start.Carries bottom middle)
    (sent : middle.Sent bottom base after) : start.Sent bottom base after := by
  cases sent with
  | answered later operands replied => exact .answered (carries.trans later) operands replied
  | activated later ended => exact .activated (carries.trans later) ended

/-- The receiver is the same while it stays in its place. -/
theorem Harmless.of_stands (harmless : start.Harmless bottom count) (stands : start.Stands bottom after)
    (place : after.registers.sp - other = start.registers.sp - count) :
    after.Harmless bottom other where
  receiver found := by
    rcases harmless.place with low | ⟨framed, inside⟩
    · exact low
    · rw [place, stands.active, stands.slots.fetch_eq framed inside] at found
      exact harmless.receiver found
  array same := by
    rw [stands.specials, stands.active] at same
    exact harmless.array same
  place := by
    rw [place]
    exact harmless.place

end Machine

namespace Run

variable {start machine : Machine} {bottom base count : Nat}

/-! ## Finding a method -/

@[grind ←]
theorem methodFrom_rests {selector species : Value} {budget : Nat} :
    Rested start bottom (methodFrom selector budget species) := by
  induction budget generalizing species with
  | zero => grind [methodFrom]
  | succ budget induction =>
    rw [methodFrom]
    refine getNil_rests.bind fun nil => .ite (fun _ => .pure) fun _ => ?_
    refine .andThen (modifyRegisters_rests fun _ => rfl) (fetch_rests.bind fun dictionary => ?_)
    refine readHeap_rests.bind fun found => ?_
    cases found with
    | none => exact fetch_rests.bind fun _ => induction
    | some method => exact .pure

@[grind ←]
theorem cachedMethod_rests {selector species : Value} :
    Rested start bottom (cachedMethod selector species) :=
  modifyGet_rests fun _ rests => rests.of_same rfl rfl rfl rfl rfl

@[grind ←]
theorem rememberMethod_rests {entry : CacheEntry} : Rested start bottom (rememberMethod entry) :=
  modify_rests (fun _ => rfl) (fun _ => rfl) (fun _ => rfl) (fun _ => rfl) fun _ => rfl

@[grind ←]
theorem lookupMethod_rests {selector species : Value} :
    Rested start bottom (lookupMethod selector species) := by
  refine cachedMethod_rests.bind fun cached => ?_
  cases cached with
  | some entry => exact .pure
  | none =>
    refine getHeap_rests.bind fun heap => methodFrom_rests.bind fun found => ?_
    cases found with
    | none => exact .pure
    | some method => exact readHeap_rests.bind fun header => .andThen rememberMethod_rests .pure

@[grind ←]
theorem resolveMessage_rests {species : Value} : Rested start bottom (resolveMessage species) := by
  grind [resolveMessage]

@[grind ←]
theorem messageHasLookupClass_rests : Rested start bottom messageHasLookupClass := by
  grind [messageHasLookupClass]

@[grind ←]
theorem failUnderstanding_rests {selector : Value} :
    Rested start bottom (failUnderstanding selector) := by
  grind [failUnderstanding]

/-- A message that is not understood lies in the place of its arguments. -/
theorem packMessage_carries (rests : start.Rests bottom machine) (above : bottom ≤ base)
    (place : start.registers.sp = base + start.registers.argumentCount) (lookupClass : Value) :
    (packMessage lookupClass).Ensures machine fun _ after =>
      start.Carries bottom after ∧ after.registers.sp = base + after.registers.argumentCount := by
  refine (ensures_getRegisters machine).bindExactly ?_
  rw [rests.argumentCount]
  refine (instantiateApart_rests machine rests).bind fun arguments _ ⟨rests, apart⟩ => ?_
  have clear : start.Clear bottom arguments := fun same => absurd same apart
  refine (copyOperands_rests clear _ rests).bind fun _ _ ⟨rests, _⟩ => ?_
  refine (messageHasLookupClass_rests _ rests).bind fun known _ ⟨rests, _⟩ => ?_
  have packed (object : HeapObject) (left : Machine) (rests : start.Rests bottom left) : (do
      let message ← register object
      drop start.registers.argumentCount
      push message
      modifyRegisters fun registers => { registers with argumentCount := 1 } : Run Unit).Ensures
        left fun _ after =>
      start.Carries bottom after ∧ after.registers.sp = base + after.registers.argumentCount := by
    refine (register_rests left rests).bind fun message made ⟨rests, _⟩ => ?_
    refine (drop_carries rests.carries _).bind fun _ dropped ⟨carries, changed⟩ => ?_
    have free : dropped.registers.sp = base := by
      rw [changed, rests.sp, place]
      exact Nat.add_sub_cancel ..
    refine (push_carries carries.toStands message (free.symm ▸ above)).bind
      fun _ pushed ⟨carries, raised⟩ => ?_
    refine (ensures_modifyRegisters pushed _).mono ?_
    rintro _ _ rfl
    refine ⟨carries.of_same rfl rfl rfl rfl, ?_⟩
    change pushed.registers.sp = base + 1
    rw [raised, ← free]
  split
  · exact packed _ _ rests
  · exact packed _ _ rests

/-- The receiver stays in its place while the method of a message is found. -/
theorem findMethodBy_carries (rests : start.Rests bottom machine) (above : bottom ≤ base)
    (place : start.registers.sp = base + start.registers.argumentCount) (species : Value) :
    (findMethodBy resolveMessage species).Ensures machine fun _ after =>
      start.Carries bottom after ∧ after.registers.sp = base + after.registers.argumentCount := by
  refine (resolveMessage_rests machine rests).bind fun found between ⟨rests, _⟩ => ?_
  cases found with
  | true =>
    refine .pure ⟨rests.carries, ?_⟩
    rw [rests.sp, rests.argumentCount, place]
  | false =>
    refine (getRegisters_rests between rests).bind fun registers _ ⟨rests, _⟩ => ?_
    refine (specialObject_rests _ rests).bind fun doesNotUnderstand looked ⟨rests, _⟩ => ?_
    have packed (left : Machine) (rests : start.Rests bottom left) : (do
        packMessage species
        modifyRegisters fun registers => { registers with messageSelector := doesNotUnderstand }
        unless ← resolveMessage species do
          failUnderstanding doesNotUnderstand : Run Unit).Ensures left fun _ after =>
        start.Carries bottom after ∧
          after.registers.sp = base + after.registers.argumentCount := by
      refine (packMessage_carries rests above place species).bind
        fun _ packed ⟨carries, packedPlace⟩ => ?_
      have renamed : Rested packed bottom (do
          modifyRegisters fun registers =>
            { registers with messageSelector := doesNotUnderstand }
          unless ← resolveMessage species do
            failUnderstanding doesNotUnderstand : Run Unit) := by
        grind
      refine (renamed packed carries.rests).mono fun _ after ⟨rests, _⟩ => ?_
      refine ⟨carries.trans rests.carries, ?_⟩
      rw [rests.sp, rests.argumentCount, packedPlace]
    split
    · exact (failUnderstanding_rests looked rests).bind fun _ left ⟨rests, _⟩ => packed left rests
    · exact packed looked rests

@[grind ←]
theorem inheritsFrom_rests {ancestor species : Value} {budget : Nat} :
    Rested start bottom (inheritsFrom ancestor budget species) := by
  induction budget generalizing species with
  | zero =>
    refine getNil_rests.bind fun nil => .ite (fun _ => .pure) fun _ => ?_
    exact .ite (fun _ => .pure) fun _ => .throw
  | succ budget induction =>
    refine getNil_rests.bind fun nil => .ite (fun _ => .pure) fun _ => ?_
    exact .ite (fun _ => .pure) fun _ => fetch_rests.bind fun _ => induction

end Run

namespace Reply

open Run

variable {ends : Machine → Prop} {start machine : Machine} {bottom base count : Nat}
  {send : Sender}

@[grind ←]
theorem mismatches_rests {selector species : Value} :
    Rested start bottom (mismatches selector species count) := by
  refine lookupMethod_rests.bind fun found => ?_
  cases found with
  | none => exact .pure
  | some entry =>
    refine readHeap_rests.bind fun header => ?_
    cases header <;> exact .pure

/-- Slots above `bottom` may be moved. -/
theorem shiftDown_rests {context : Value} {slot : Nat} (above : bottom < slot) :
    Rested start bottom (shiftDown context count slot) := by
  induction count generalizing slot with
  | zero => exact .pure
  | succ count induction =>
    exact fetch_rests.bind fun _ =>
      .andThen (storeApart_rests fun _ => .inr above) (induction (by omega))

/-- A primitive either fails and lets the frame rest, or ends with something known. -/
def EndsIn (ends : Machine → Prop) (start : Machine) (bottom : Nat) (machine : Machine)
    (run : Run Bool) : Prop :=
  run.Ensures machine fun succeeded after =>
    (succeeded = false → start.Rests bottom after) ∧ (succeeded = true → ends after)

theorem Reaches.endsIn (reaches : Reaches ends start bottom base send)
    (carries : start.Carries bottom machine) {rest : Nat}
    (passed : machine.registers.sp = base + rest) (selector species : Value) :
    EndsIn ends start bottom machine (do
      send selector rest species
      return true) :=
  (reaches selector rest species machine carries passed).bind fun _ _ ended =>
    .pure ⟨nofun, fun _ => ended⟩

/-- The message is sent from a stack that holds its receiver in the same place. -/
theorem Delivers.reaches (delivers : Delivers send) (harmless : start.Harmless bottom count)
    (place : start.registers.sp = base + count) (above : bottom ≤ base) :
    Reaches (start.Sent bottom base) start bottom base send := by
  intro selector rest species machine carries passed
  have spared : machine.Harmless bottom rest := harmless.of_stands carries.toStands (by omega)
  refine (delivers selector rest species machine bottom base carries.rests spared passed above).mono
    fun _ after sent => ?_
  exact sent.of_carries carries

theorem perform_sends (reaches : Reaches ends start bottom base send)
    (ready : start.Rests bottom start) (place : start.registers.sp = base + count)
    (above : bottom ≤ base) : EndsIn ends start bottom start (perform send count) := by
  unfold perform
  split
  · exact .pure ⟨fun _ => ready, nofun⟩
  refine (argument_rests start ready).bind fun selector _ ⟨rests, _⟩ => ?_
  split
  · exact .pure ⟨fun _ => rests, nofun⟩
  refine (receiverOf_rests _ rests).bind fun receiver _ ⟨rests, _⟩ => ?_
  refine (classOf_rests _ rests).bind fun species _ ⟨rests, _⟩ => ?_
  refine (mismatches_rests _ rests).bind fun mismatch looked ⟨rests, _⟩ => ?_
  split
  · exact .pure ⟨fun _ => rests, nofun⟩
  refine (ensures_getRegisters looked).bindExactly ?_
  have higher : bottom < looked.registers.sp - (count - 1) := by
    rw [rests.sp, place]
    omega
  refine (shiftDown_rests higher looked rests).bind fun _ shifted ⟨rests, _⟩ => ?_
  refine (drop_carries rests.carries 1).bind fun _ dropped ⟨carries, changed⟩ => ?_
  refine reaches.endsIn carries ?_ selector species
  rw [changed]
  change shifted.registers.sp - 1 = _
  rw [rests.sp, place]
  omega

/-- Pushing values raises the stack pointer by their number. -/
theorem pushAll_carries (carries : start.Carries bottom machine) (values : List Value)
    (above : bottom ≤ machine.registers.sp) :
    (values.forM push).Ensures machine fun _ after =>
      start.Carries bottom after ∧
      after.registers.sp = machine.registers.sp + values.length := by
  induction values generalizing machine with
  | nil => exact .pure ⟨carries, rfl⟩
  | cons value rest induction =>
    refine (push_carries carries.toStands value above).bind fun _ pushed ⟨carries, raised⟩ => ?_
    have higher : pushed.registers.sp = machine.registers.sp + 1 := by rw [raised]
    refine (induction carries (by omega)).mono fun _ after ⟨carries, ended⟩ => ⟨carries, ?_⟩
    rw [ended, higher, List.length_cons]
    omega

theorem performWithArray_sends (reaches : Reaches ends start bottom base send)
    (place : start.registers.sp = base + count) (above : bottom ≤ base)
    (rests : start.Rests bottom machine) (selector array species : Value) :
    EndsIn ends start bottom machine
      (performWithArray send count selector array species) := by
  unfold performWithArray
  split
  · exact .pure ⟨fun _ => rests, nofun⟩
  refine (getRegisters_rests machine rests).bind fun registers _ ⟨rests, _⟩ => ?_
  refine (classOf_rests _ rests).bind fun kind _ ⟨rests, _⟩ => ?_
  split
  · exact .pure ⟨fun _ => rests, nofun⟩
  refine (object_rests _ rests).bind fun owner _ ⟨rests, _⟩ => ?_
  refine (getHeap_rests _ rests).bind fun heap _ ⟨rests, _⟩ => ?_
  dsimp only
  split
  · exact .pure ⟨fun _ => rests, nofun⟩
  refine (mismatches_rests _ rests).bind fun mismatch looked ⟨rests, _⟩ => ?_
  split
  · exact .pure ⟨fun _ => rests, nofun⟩
  refine (drop_carries rests.carries count).bind fun _ dropped ⟨carries, changed⟩ => ?_
  have free : dropped.registers.sp = base := by
    rw [changed, rests.sp, place]
    exact Nat.add_sub_cancel ..
  refine (pushAll_carries carries _ (free.symm ▸ above)).bind
    fun _ pushed ⟨carries, raised⟩ => ?_
  exact reaches.endsIn carries (free ▸ raised) selector species

theorem performWithArguments_sends (reaches : Reaches ends start bottom base send)
    (ready : start.Rests bottom start) (place : start.registers.sp = base + count)
    (above : bottom ≤ base) :
    EndsIn ends start bottom start (performWithArguments send count) := by
  unfold performWithArguments
  split
  · exact .pure ⟨fun _ => ready, nofun⟩
  refine (argument_rests start ready).bind fun selector _ ⟨rests, _⟩ => ?_
  refine (argument_rests _ rests).bind fun array _ ⟨rests, _⟩ => ?_
  refine (receiverOf_rests _ rests).bind fun receiver _ ⟨rests, _⟩ => ?_
  refine (classOf_rests _ rests).bind fun species looked ⟨rests, _⟩ => ?_
  exact performWithArray_sends reaches place above rests selector array species

theorem performInSuperclass_sends (reaches : Reaches ends start bottom base send)
    (ready : start.Rests bottom start) (place : start.registers.sp = base + count)
    (above : bottom ≤ base) :
    EndsIn ends start bottom start (performInSuperclass send count) := by
  unfold performInSuperclass
  split
  · exact .pure ⟨fun _ => ready, nofun⟩
  refine (argument_rests start ready).bind fun selector _ ⟨rests, _⟩ => ?_
  refine (argument_rests _ rests).bind fun array _ ⟨rests, _⟩ => ?_
  refine (argument_rests _ rests).bind fun lookup _ ⟨rests, _⟩ => ?_
  refine (receiverOf_rests _ rests).bind fun receiver _ ⟨rests, _⟩ => ?_
  refine (classOf_rests _ rests).bind fun species _ ⟨rests, _⟩ => ?_
  split
  · exact .pure ⟨fun _ => rests, nofun⟩
  refine (getHeap_rests _ rests).bind fun heap _ ⟨rests, _⟩ => ?_
  refine (inheritsFrom_rests _ rests).bind fun inherits looked ⟨rests, _⟩ => ?_
  split
  · exact .pure ⟨fun _ => rests, nofun⟩
  exact performWithArray_sends reaches place above rests selector array lookup

end Reply

/-! ## Primitives by number -/

namespace Run

variable {ends : Machine → Prop} {start machine : Machine} {bottom base count : Nat}
  {send : Reply.Sender}

open Reply

/-- A quick primitive only looks at its receiver. -/
theorem quickResult_ensures (number : Nat) (receiver : Value) (machine : Machine) :
    (quickResult number receiver).Ensures machine fun result after =>
      quickResult number receiver machine = .ok result machine ∧ after = machine := by
  intro result after ended
  have same : after = machine := by
    unfold quickResult at ended
    rw [bind_ok getRegisters_apply] at ended
    dsimp only at ended
    split at ended
    all_goals cases ended; rfl
  rw [same] at ended
  exact ⟨ended, same⟩

/-- The primitive with a number performs a message. -/
def Performs (number : Nat) : Prop :=
  ¬ (quickSelf ≤ number ∧ number ≤ quickLast) ∧
    ∃ primitive, Primitive.ofNumber? number = some primitive ∧ primitive.manner = .performs

theorem quickPrimitive_replies (ready : start.Rests bottom start) {number : Nat}
    (quick : quickSelf ≤ number ∧ number ≤ quickLast) :
    EndsIn (start.Replied bottom · number) start bottom start (quickPrimitive number) := by
  refine (ensures_getRegisters start).bindExactly ?_
  refine (ensures_operand start _).bindTo fun receiver onStack => ?_
  refine (quickResult_ensures number receiver start).bindTo fun result found => ?_
  cases result with
  | none => exact .pure ⟨fun _ => ready, nofun⟩
  | some answer =>
    refine (ensures_replace start _ answer).bind fun _ after ⟨held, changed⟩ => ?_
    exact .pure ⟨nofun, fun _ => .quick quick onStack found ⟨held, changed⟩⟩

/-- A primitive of the table has the effect of its manner. -/
theorem primitive_replies (ready : start.Rests bottom start)
    (harmless : start.Harmless bottom start.registers.argumentCount) (send : Reply.Sender)
    {number : Nat} (slow : ¬ (quickSelf ≤ number ∧ number ≤ quickLast)) {primitive : Primitive}
    (named : Primitive.ofNumber? number = some primitive)
    (direct : primitive.manner ≠ .performs) :
    EndsIn (start.Replied bottom · number) start bottom start
      (primitive.run send start.registers.argumentCount) :=
  (primitive.run_effects ready harmless send direct).mono fun _ _ ended =>
    ⟨ended.1, fun succeeds => .numbered slow named (ended.2 succeeds)⟩

/-- A primitive of the table that performs a message sends it. -/
theorem performer_sends (reaches : Reply.Reaches ends start bottom base send)
    (ready : start.Rests bottom start)
    (place : start.registers.sp = base + start.registers.argumentCount) (above : bottom ≤ base)
    {primitive : Primitive} (performs : primitive.manner = .performs) :
    EndsIn ends start bottom start (primitive.run send start.registers.argumentCount) := by
  cases primitive
  case perform => exact perform_sends reaches ready place above
  case performWithArguments => exact performWithArguments_sends reaches ready place above
  case performInSuperclass => exact performInSuperclass_sends reaches ready place above
  all_goals cases performs

/-- The stack pointer is set back after a primitive of the table has failed. -/
theorem respond_restores {number : Nat} {primitive : Primitive}
    (slow : ¬ (quickSelf ≤ number ∧ number ≤ quickLast))
    (named : Primitive.ofNumber? number = some primitive)
    (ran : EndsIn ends start bottom start (primitive.run send start.registers.argumentCount)) :
    EndsIn ends start bottom start (respond send number) := by
  rw [respond, if_neg slow, named]
  refine (ensures_getRegisters start).bindExactly (ran.bind fun succeeded after ended => ?_)
  cases succeeded with
  | true => exact .pure ended
  | false =>
    refine (ensures_modifyRegisters after _).bindChange fun _ => .pure ⟨fun _ => ?_, nofun⟩
    have rests := ended.1 rfl
    exact ⟨rests.toStands.of_same rfl rfl rfl, rfl, rests.argumentCount⟩

/-- A message whose primitive performs none is replied to. -/
theorem respond_replies (ready : start.Rests bottom start)
    (harmless : start.Harmless bottom start.registers.argumentCount) (send : Reply.Sender)
    {number : Nat} (direct : ¬ Performs number) :
    EndsIn (start.Replied bottom · number) start bottom start (respond send number) := by
  by_cases quick : quickSelf ≤ number ∧ number ≤ quickLast
  · rw [respond, if_pos quick]
    exact quickPrimitive_replies ready quick
  · cases named : Primitive.ofNumber? number with
    | none =>
      rw [respond, if_neg quick, named]
      exact .pure ⟨fun _ => ready, nofun⟩
    | some primitive =>
      refine respond_restores quick named
        (primitive_replies ready harmless send quick named fun performs => ?_)
      exact direct ⟨quick, primitive, named, performs⟩

/-- One whose primitive performs another one leads wherever that one leads. -/
theorem respond_performs (reaches : Reply.Reaches ends start bottom base send)
    (ready : start.Rests bottom start)
    (place : start.registers.sp = base + start.registers.argumentCount) (above : bottom ≤ base)
    {number : Nat} (performs : Performs number) :
    EndsIn ends start bottom start (respond send number) := by
  rcases performs with ⟨slow, primitive, named, performs⟩
  exact respond_restores slow named (performer_sends reaches ready place above performs)

/-- A primitive either fails and lets the frame rest, or the message is answered. -/
theorem respond_sends (delivers : Reply.Delivers send) (ready : start.Rests bottom start)
    (harmless : start.Harmless bottom start.registers.argumentCount)
    (place : start.registers.sp = base + start.registers.argumentCount) (above : bottom ≤ base)
    (number : Nat) :
    EndsIn (start.Sent bottom base) start bottom start (respond send number) := by
  by_cases performs : Performs number
  · exact respond_performs (delivers.reaches harmless place above) ready place above performs
  · exact (respond_replies ready harmless send performs).mono fun _ _ ended =>
      ⟨ended.1, fun succeeds => .answered ready.carries place (ended.2 succeeds)⟩

/-- Every message is answered by a primitive, or its method is activated. -/
theorem sendToClass_delivers (depth : Nat) : Reply.Delivers (sendToClass depth) := by
  induction depth with
  | zero => exact fun _ _ _ _ _ _ _ _ _ _ => .throw
  | succ depth induction =>
    intro selector count species machine bottom base ready harmless place above
    refine (ensures_modifyRegisters machine _).bindChange fun _ => ?_
    let sent := machine.sending selector count species
    have carries : machine.Carries bottom sent := ready.carries.of_same rfl rfl rfl rfl
    have rests : sent.Rests bottom sent := carries.rests
    refine (findMethodBy_carries rests above place species).bind fun _ found ⟨later, passed⟩ => ?_
    have carried : machine.Carries bottom found := carries.trans later
    have spared : found.Harmless bottom found.registers.argumentCount :=
      harmless.of_stands carried.toStands (by omega)
    refine (ensures_getRegisters found).bindExactly ?_
    have finish (answered : Bool) (after : Machine)
        (unanswered : answered = false → found.Rests bottom after)
        (sent : answered = true → found.Sent bottom base after) :
        (unless answered do activateMethod : Run Unit).Ensures after fun _ last =>
          machine.Sent bottom base last := by
      cases answered with
      | true => exact .pure ((sent rfl).of_carries carried)
      | false =>
        exact fun _ _ did => .activated (carried.trans (unanswered rfl).carries) did
    dsimp only
    split
    · refine (respond_sends induction carried.rests spared passed above _).bind
        fun answered after ended => finish answered after ended.1 ended.2
    · exact finish false found (fun _ => carried.rests) nofun

end Run

end Smalltalk
