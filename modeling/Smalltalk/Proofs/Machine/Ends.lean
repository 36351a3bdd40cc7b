import Smalltalk.Proofs.Machine.Instructions
import Smalltalk.Proofs.Machine.Nesting
import Smalltalk.Proofs.Primitive.Finishes

namespace Smalltalk

/-! A step ends: the messages that it sends within messages settle, and each of them stops
only where it has to. -/

namespace Run

/-- The search for the method of a message ends, and so does the search for the method of the
message that takes its place. -/
theorem findMethodBy_due {machine : Machine} {species : Value}
    (sent : machine.registers.lookupClass = species) :
    Stops Stop.Due (findMethodBy resolveMessage species) machine := by
  have climbs {machine : Machine} (sent : machine.registers.lookupClass = species) :
      machine.Climbs species := sent ▸ Machine.SearchStart.sent.climbs
  refine .bind (resolveMessage_due (climbs sent))
    (resolveMessage_keepsLookupClass species species machine sent) ?_
  rintro found searched ⟨sent, -⟩
  refine .ite (fun _ => .pure) fun _ => .bindOk getRegisters_apply ?_
  refine .bind (specialObject_plain.finishes _) (ensures_specialObject searched _) ?_
  rintro doesNotUnderstand searched ⟨-, rfl⟩
  have again (machine : Machine) (sent : machine.registers.lookupClass = species) :
      Stops Stop.Due (do
        packMessage species
        modifyRegisters fun registers => { registers with messageSelector := doesNotUnderstand }
        unless ← resolveMessage species do failUnderstanding doesNotUnderstand) machine := by
    refine .bind (packMessage_plain.finishes _) (packMessage_keepsLookupClass species species machine sent)
      ?_
    rintro - packed ⟨sent, -⟩
    refine .bindOk (modifyRegisters_apply _) ?_
    refine .andThen (resolveMessage_due (climbs sent)) fun found => ?_
    exact Finishes.ite (fun _ => .pure) fun _ => failUnderstanding_plain.finishes
  refine .ite (fun _ => ?_) fun _ => again searched sent
  exact .bind (failUnderstanding_plain.finishes _) (failUnderstanding_ensures _ _) fun _ _ => False.elim

theorem sendOnce_finishes {inner : Reply.Sender} (sends : inner.Finishes) :
    Reply.Sender.Finishes (sendOnce inner) := by
  intro selector count species machine
  have searched : Stops Stop.Due (findMethodBy resolveMessage species)
      (machine.sending selector count species) := findMethodBy_due rfl
  refine .bindOk (modifyRegisters_apply _) (searched.andThen fun _ => ?_)
  refine getRegisters_finishes.bind fun registers => ?_
  have activates (answered : Bool) :
      Finishes (if answered = true then pure () else activateMethod) :=
    .ite (fun _ => .pure) fun _ => activateMethod_plain.finishes
  refine .ite (fun _ => ?_) fun _ => Finishes.pure.bind activates
  exact (respond_finishes sends _).bind activates

theorem sendWithin_finishes {bottom : Reply.Sender} (sends : bottom.Finishes) (depth : Nat) :
    Reply.Sender.Finishes (sendWithin bottom depth) := by
  induction depth with
  | zero => exact sends
  | succ depth induction => exact sendOnce_finishes induction

theorem SendsLast.finishes {sender : Reply.Sender} {run : Run Unit} (sends : sender.Finishes)
    (last : SendsLast sender run) : Finishes run := by
  induction last with
  | plain plain => exact plain.finishes
  | send selector count species => exact sends selector count species
  | bind first _ induction => exact first.finishes.bind induction
  | bindRegisters _ induction => exact getRegisters_finishes.bind induction

end Run

namespace Machine

variable {machine : Machine}

/-- Arrays that refer only to arrays in earlier slots do not contain themselves. -/
theorem not_entersCircle_of_descending
    (descends : ∀ slot < machine.heap.cells.size, ∀ object ∈ machine.heap.cell? slot,
      object.species = machine.registers.specials.arrayClass →
        ∀ element ∈ (object.pointers?.getD #[]).toList, ∀ inner ∈ element.slot?, inner < slot)
    (value : Value) : ¬ value.EntersCircle machine.Element := by
  have below {array element : Value} (inside : Relation.TransGen machine.Element array element) :
      ∃ slot, array = .object slot ∧ ∀ inner ∈ element.slot?, inner < slot := by
    have here {array element : Value} (isElement : machine.Element array element) :
        ∃ slot, array = .object slot ∧ ∀ inner ∈ element.slot?, inner < slot := by
      rcases isElement with ⟨-, object, found, species, member⟩
      rcases Heap.live_of_get? found with ⟨slot, rfl, live⟩
      exact ⟨slot, rfl, descends slot live.lt_size object found species element member⟩
    induction inside with
    | single isElement => exact here isElement
    | tail _ isElement induction =>
      rcases induction with ⟨slot, rfl, lower⟩
      rcases here isElement with ⟨between, rfl, further⟩
      exact ⟨slot, rfl, fun inner isInner => (further inner isInner).trans (lower between rfl)⟩
  rintro ⟨array, -, around⟩
  rcases below around with ⟨slot, rfl, lower⟩
  exact Nat.lt_irrefl slot (lower slot rfl)

/-- A machine that is about to send a message whose method performs the same message with the
elements of an array, one of which is an empty array. -/
def passingArrays : Machine :=
  let nil : Value := .object 0
  let machine := sampleMachine
    [sampleNode .zero #[], sampleNode .zero #[nil, .object 2, .zero],
      sampleNode .zero #[.zero, .object 3, .object 4], sampleNode .zero #[.object 5],
      sampleNode .zero #[],
      { species := .zero
        format := Format.method
        body := .method #[(MethodHeader.pack 2 2 0 84 false).value] #[120] },
      sampleMethod 0 [.object 4] #[240],
      sampleNode .zero #[nil, nil, nil, .object 6, nil, .object 8, .object 4, .object 10, nil],
      sampleNode (.object 1) #[], sampleNode nil #[], sampleNode nil #[.object 4, .object 9]]
    12 nil
  { machine with registers.sp := 7 }

end Machine

end Smalltalk
