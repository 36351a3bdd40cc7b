import Smalltalk.Proofs.Primitive.Plain

namespace Smalltalk

/-! Every primitive comes to its end, if the messages that it performs do, and so does every
instruction. -/

namespace Reply

open Run

/-! ## Elements -/

theorem rememberPart_finishes {part : IndexedPart} {access : Access} :
    Finishes (rememberPart part access) := modify_finishes

theorem elementAt_finishes {chars : Bool} {count : Nat} : Finishes (elementAt chars count) := by
  refine .ite (fun _ => .pure) fun _ => receiverOf_plain.finishes.bind fun receiver => ?_
  refine indexedPart_plain.finishes.bind fun part => ?_
  cases part with
  | none => exact .pure
  | some part =>
    refine argument_plain.finishes.bind fun index => ?_
    cases place? index part.size with
    | none => exact .pure
    | some place =>
      have answer : Plain (do succeed count (← readElement part place)) := by
        grind
      refine isCacheable_plain.finishes.bind fun cacheable => ?_
      exact .ite (fun _ => rememberPart_finishes.andThen answer.finishes) fun _ => answer.finishes

theorem setElementAt_finishes {chars : Bool} {count : Nat} :
    Finishes (setElementAt chars count) := by
  refine .ite (fun _ => .pure) fun _ => receiverOf_plain.finishes.bind fun receiver => ?_
  refine indexedPart_plain.finishes.bind fun part => ?_
  cases part with
  | none => exact .pure
  | some part =>
    refine argument_plain.finishes.bind fun index => ?_
    cases place? index part.size with
    | none => exact .pure
    | some place =>
      refine argument_plain.finishes.bind fun value => ?_
      refine writeElement_plain.finishes.bind fun written => .ite (fun _ => .pure) fun _ => ?_
      refine isCacheable_plain.finishes.bind fun cacheable => .ite (fun _ => ?_) fun _ => ?_
      · exact rememberPart_finishes.andThen succeed_plain.finishes
      · exact succeed_plain.finishes

/-! ## Messages that are performed -/

theorem mismatches_due {machine : Machine} {selector species : Value} {count : Nat}
    (climbs : machine.Climbs species) :
    Stops Stop.Due (mismatches selector species count) machine := by
  refine (lookupMethod_due climbs).andThen fun found after => ?_
  revert after
  cases found with
  | none => exact Finishes.pure
  | some entry =>
    refine readHeap_finishes.bind fun header => ?_
    cases header <;> exact .pure

/-- Every message that is sent this way comes to its end. -/
abbrev Sender.Finishes (sender : Sender) : Prop :=
  ∀ selector count species, Run.Finishes (sender selector count species)

variable {sender : Sender}

theorem perform_finishes (sends : sender.Finishes) {count : Nat} :
    Finishes (perform sender count) := by
  refine .ite (fun _ => .pure) fun _ => argument_plain.finishes.bind fun selector => ?_
  refine .ite (fun _ => .pure) fun _ => receiverOf_plain.finishes.bind fun receiver machine => ?_
  refine .bind (classOf_plain.finishes _) (classOf_climbs machine receiver) ?_
  rintro species machine ⟨climbs, rfl⟩
  refine (mismatches_due climbs).andThen fun mismatched => ?_
  refine Finishes.ite (fun _ => .pure) fun _ => getRegisters_finishes.bind fun registers => ?_
  refine shiftDown_plain.finishes.andThen (drop_plain.finishes.andThen ?_)
  exact (sends _ _ _).bind fun _ => .pure

theorem performWithArray_due (sends : sender.Finishes) {count : Nat} {machine : Machine}
    {selector array species : Value} (climbs : machine.Climbs species) :
    Stops Stop.Due (performWithArray sender count selector array species) machine := by
  refine .ite (fun _ => .pure) fun _ => .bindOk getRegisters_apply ?_
  refine .bind (classOf_plain.finishes _) (classOf_climbs machine array) ?_
  rintro found machine ⟨-, rfl⟩
  refine .ite (fun _ => .pure) fun _ => ?_
  refine .bind (object_plain.finishes _) (ensures_readHeap machine _) ?_
  rintro elements machine ⟨-, rfl⟩
  refine .bindOk getHeap_apply (.ite (fun _ => .pure) fun _ => ?_)
  refine (mismatches_due climbs).andThen fun mismatched => ?_
  refine Finishes.ite (fun _ => .pure) fun _ => drop_plain.finishes.andThen ?_
  refine (forM_plain fun _ => push_plain).finishes.bind fun _ => ?_
  exact (sends _ _ _).bind fun _ => .pure

theorem performWithArguments_finishes (sends : sender.Finishes) {count : Nat} :
    Finishes (performWithArguments sender count) := by
  refine .ite (fun _ => .pure) fun _ => argument_plain.finishes.bind fun selector => ?_
  refine argument_plain.finishes.bind fun array => ?_
  refine receiverOf_plain.finishes.bind fun receiver machine => ?_
  refine .bind (classOf_plain.finishes _) (classOf_climbs machine receiver) ?_
  rintro species machine ⟨climbs, rfl⟩
  exact performWithArray_due sends climbs

theorem performInSuperclass_finishes (sends : sender.Finishes) {count : Nat} :
    Finishes (performInSuperclass sender count) := by
  refine .ite (fun _ => .pure) fun _ => argument_plain.finishes.bind fun selector => ?_
  refine argument_plain.finishes.bind fun array => argument_plain.finishes.bind fun lookup => ?_
  refine receiverOf_plain.finishes.bind fun receiver machine => ?_
  refine .bind (classOf_plain.finishes _) (classOf_climbs machine receiver) ?_
  rintro species machine ⟨climbs, rfl⟩
  refine .ite (fun _ => .pure) fun _ => .bindOk getHeap_apply ?_
  refine .bind (inheritsFrom_due climbs (.start _ _ _)) (inheritsFrom_reaches .refl) ?_
  rintro inherits machine ⟨rfl, reaches⟩
  cases inherits with
  | false => exact .pure
  | true => exact performWithArray_due sends (climbs.further (reaches rfl))

end Reply

open Run

/-! ## Messages -/

variable {sender : Reply.Sender}

theorem Primitive.run_finishes (sends : sender.Finishes) (primitive : Primitive) (count : Nat) :
    Finishes (primitive.run sender count) := by
  rcases primitive.plain_or_special sender count with plain | special
  · exact plain.finishes
  cases special with
  | elementAt chars => exact Reply.elementAt_finishes
  | setElementAt chars => exact Reply.setElementAt_finishes
  | perform => exact Reply.perform_finishes sends
  | performWithArguments => exact Reply.performWithArguments_finishes sends
  | performInSuperclass => exact Reply.performInSuperclass_finishes sends

namespace Run

theorem respond_finishes (sends : sender.Finishes) (number : Nat) :
    Finishes (respond sender number) := by
  refine .ite (fun _ => quickPrimitive_plain.finishes) fun _ => ?_
  cases Primitive.ofNumber? number with
  | none => exact .pure
  | some primitive =>
    refine getRegisters_finishes.bind fun registers => ?_
    refine (primitive.run_finishes sends _).bind fun succeeded => ?_
    split <;> grind

end Run

end Smalltalk
